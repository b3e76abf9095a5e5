import Mathlib.Data.List.Basic

/-!
# Values that are recalled

A request asks for something under a key. What was asked for last under the key is recalled with
its value, and a request for the same thing gets that value again; any other request gets a fresh
one, which takes the place of the one before. So the value of a request is the first one of the
last unbroken sequence of equal requests under its key.
-/

namespace Osquery.Foundation.Recall

variable {σ κ ι ν : Type}

/-- Answering requests: a value is recalled for the last thing asked for under a key, and every
request takes one tick of a clock, at which fresh values are drawn. -/
structure Recalls (valid : ι → Prop) (ask : κ → ι → σ → ν × σ) (kept : σ → κ → ι → Option ν)
    (clock : σ → ℕ) (fresh : ℕ → ι → ν) : Prop where
  value : ∀ {i : ι} (k : κ) (s : σ), valid i →
    (ask k i s).1 = (kept s k i).getD (fresh (clock s) i)
  same : ∀ {i : ι} (k : κ) (s : σ), valid i → kept (ask k i s).2 k i = some (ask k i s).1
  other : ∀ {i j : ι} (k : κ) (s : σ), valid i → i ≠ j → kept (ask k i s).2 k j = none
  frame : ∀ {k k' : κ} (i j : ι) (s : σ), k ≠ k' → kept (ask k i s).2 k' j = kept s k' j
  tick : ∀ (k : κ) (i : ι) (s : σ), clock (ask k i s).2 = clock s + 1

/-- The state after some requests. -/
def after (ask : κ → ι → σ → ν × σ) (requests : List (κ × ι)) (s : σ) : σ :=
  requests.foldl (fun s r => (ask r.1 r.2 s).2) s

theorem after_append (ask : κ → ι → σ → ν × σ) (requests requests' : List (κ × ι)) (s : σ) :
    after ask (requests ++ requests') s = after ask requests' (after ask requests s) :=
  List.foldl_append

/-- Every request under the key is for one thing. -/
def Uniform (k : κ) (i : ι) (requests : List (κ × ι)) : Prop := ∀ r ∈ requests, r.1 = k → r.2 = i

theorem uniform_append {k : κ} {i : ι} {requests requests' : List (κ × ι)} :
    Uniform k i (requests ++ requests') ↔ Uniform k i requests ∧ Uniform k i requests' :=
  List.forall_mem_append

namespace Recalls

variable {valid : ι → Prop} {ask : κ → ι → σ → ν × σ} {kept : σ → κ → ι → Option ν}
  {clock : σ → ℕ} {fresh : ℕ → ι → ν} (R : Recalls valid ask kept clock fresh)

include R

theorem clock_after (requests : List (κ × ι)) (s : σ) :
    clock (after ask requests s) = clock s + requests.length := by
  induction requests generalizing s with
  | nil => rfl
  | cons r requests ih =>
      have hstep : after ask (r :: requests) s = after ask requests (ask r.1 r.2 s).2 := rfl
      rw [hstep, ih, R.tick, List.length_cons]
      omega

theorem value_of_recall {k : κ} {i : ι} {s : σ} {v : ν} (hi : valid i)
    (h : kept s k i = some v) : (ask k i s).1 = v := by
  rw [R.value k s hi, h, Option.getD_some]

/-- Nothing is forgotten by equal requests. -/
theorem recall_after_uniform {k : κ} {i : ι} {v : ν} {requests : List (κ × ι)}
    (hvalid : ∀ r ∈ requests, valid r.2) (huniform : Uniform k i requests) {s : σ}
    (h : kept s k i = some v) : kept (after ask requests s) k i = some v := by
  induction requests generalizing s with
  | nil => exact h
  | cons r requests ih =>
      obtain ⟨k', j⟩ := r
      have hj : valid j := hvalid _ (List.mem_cons_self ..)
      refine ih (fun r hr => hvalid r (List.mem_cons_of_mem _ hr))
        (fun r hr => huniform r (List.mem_cons_of_mem _ hr)) ?_
      by_cases hk : k' = k
      · obtain rfl : j = i := huniform _ (List.mem_cons_self ..) hk
        subst hk
        exact (R.same k' s hj).trans (congrArg some (R.value_of_recall hj h))
      · exact (R.frame j i s hk).trans h

/-- The value of one request, from what is recalled and what is drawn. -/
theorem value_of {P : ν → Prop} {k : κ} {i : ι} {s : σ} (hi : valid i)
    (hrecall : ∀ v, kept s k i = some v → P v) (hfresh : P (fresh (clock s) i)) :
    P (ask k i s).1 := by
  rw [R.value k s hi]
  cases h : kept s k i with
  | none => exact hfresh
  | some v => exact hrecall v h

/-- What is recalled for a thing keeps a property that the values drawn for it have. -/
theorem recall_after_of [DecidableEq ι] {P : ν → Prop} {k : κ} {i : ι}
    {requests : List (κ × ι)} (hvalid : ∀ r ∈ requests, valid r.2) {s : σ}
    (hs : ∀ v, kept s k i = some v → P v)
    (hfresh : ∀ t, clock s ≤ t → t < clock s + requests.length → P (fresh t i)) :
    ∀ v, kept (after ask requests s) k i = some v → P v := by
  induction requests generalizing s with
  | nil => exact hs
  | cons r requests ih =>
      obtain ⟨k', j⟩ := r
      have hj : valid j := hvalid _ (List.mem_cons_self ..)
      rw [List.length_cons] at hfresh
      refine ih (fun r hr => hvalid r (List.mem_cons_of_mem _ hr)) (fun v hv => ?_)
        (fun t hle hlt => ?_)
      · by_cases hk : k' = k
        · subst hk
          by_cases hi : j = i
          · subst hi
            have hvalue := R.value_of hj hs (hfresh (clock s) (Nat.le_refl _) (by omega))
            have hv' := (R.same k' s hj).symm.trans hv
            exact Option.some.inj hv' ▸ hvalue
          · have hv' := (R.other k' s hj hi).symm.trans hv
            cases hv'
        · exact hs v ((R.frame j i s hk).symm.trans hv)
      · rw [R.tick] at hle hlt
        exact hfresh t (by omega) (by omega)

/-- After a request for something else under the key, a value is drawn anew. -/
theorem value_of_mixed [DecidableEq ι] {P : ν → Prop} {k : κ} {i : ι} {requests : List (κ × ι)}
    (hvalid : ∀ r ∈ requests, valid r.2) (hi : valid i) {s : σ}
    (hmixed : ¬Uniform k i requests)
    (hfresh : ∀ t, clock s ≤ t → t ≤ clock s + requests.length → P (fresh t i)) :
    P (ask k i (after ask requests s)).1 := by
  rw [Uniform] at hmixed
  push Not at hmixed
  obtain ⟨r, hr, hk, hne⟩ := hmixed
  obtain ⟨before, rest, rfl⟩ := List.append_of_mem hr
  have hlength : (before ++ r :: rest).length = before.length + rest.length + 1 := by
    rw [List.length_append, List.length_cons]
    omega
  have hsplit : after ask (before ++ r :: rest) s =
      after ask rest (ask r.1 r.2 (after ask before s)).2 := by
    rw [after_append]
    rfl
  have hclock : clock (ask r.1 r.2 (after ask before s)).2 = clock s + before.length + 1 := by
    rw [R.tick, R.clock_after]
  have hnone : kept (ask r.1 r.2 (after ask before s)).2 k i = none := by
    rw [← hk]
    exact R.other r.1 _ (hvalid r hr) hne
  rw [hsplit]
  refine R.value_of hi (R.recall_after_of (fun r hr => hvalid r (by simp [hr])) ?_ ?_) ?_
  · intro v hv
    rw [hnone] at hv
    cases hv
  · intro t hle hlt
    rw [hclock] at hle hlt
    exact hfresh t (by omega) (by omega)
  · rw [R.clock_after, hclock]
    exact hfresh _ (by omega) (by omega)

/-- While all requests under the key are for one thing, each of them has the value of the first. -/
theorem value_eq_first {k : κ} {i : ι} {requests before first : List (κ × ι)}
    (hvalid : ∀ r ∈ requests, valid r.2) (huniform : Uniform k i requests)
    (hbefore : before ++ [(k, i)] <+: requests) (hfirst : first ++ [(k, i)] <+: requests)
    (hnot : (k, i) ∉ first) (s : σ) :
    (ask k i (after ask before s)).1 = (ask k i (after ask first s)).1 := by
  have hsame : before = first ∨ first ++ [(k, i)] <+: before := by
    rcases List.prefix_or_prefix_of_prefix hbefore hfirst with h | h
    · rcases List.prefix_concat_iff.mp h with heq | hle
      · exact Or.inl (List.append_cancel_right heq)
      · exact absurd (hle.subset (List.mem_append_right _ (List.mem_singleton_self _))) hnot
    · exact (List.prefix_concat_iff.mp h).imp (fun heq => (List.append_cancel_right heq).symm) id
  rcases hsame with rfl | ⟨rest, rfl⟩
  · rfl
  · have hrest : rest ⊆ requests := fun r hr => hbefore.subset (by simp [hr])
    have hi : valid i := hvalid (k, i) (hbefore.subset (by simp))
    have hsplit : after ask (first ++ [(k, i)] ++ rest) s =
        after ask rest (ask k i (after ask first s)).2 := by
      rw [after_append, after_append]
      rfl
    rw [hsplit]
    exact R.value_of_recall hi (R.recall_after_uniform (fun r hr => hvalid r (hrest hr))
      (fun r hr => huniform r (hrest hr)) (R.same k _ hi))

end Recalls

end Osquery.Foundation.Recall
