import Mathlib.Data.List.Basic

/-!
# Dropped privileges

A table that reads the files of a user takes a handle, drops the privileges of its thread to
those of the user, and gets them back when the handle is destroyed. A handle that is taken while
the privileges are dropped must not drop them further.

## Implementation notes

Handles are local to a scope, so a program is a tree of scopes with calls of `dropTo` in them.
The model is that of one thread. The kernel permits a change of ids if the effective user is
root or the new id is one of the three that the process has; a change that is permitted can
still fail, except one back to the real ids. The id with all bits set stands for no change and is
not taken as a supplementary group.
-/

namespace Osquery.Core.DropPrivileges

/-- `(uid_t)-1` and `(gid_t)-1`. -/
def noId : UInt32 := 0xFFFFFFFF

structure Credentials where
  uid : UInt32
  euid : UInt32
  suid : UInt32
  gid : UInt32
  egid : UInt32
  sgid : UInt32
  groups : List UInt32
  deriving DecidableEq

namespace Credentials

def privileged (c : Credentials) : Prop := c.euid = 0

/-- `dropped`: the effective ids are not the real ones. -/
def dropped (c : Credentials) : Prop := c.uid ≠ c.euid ∨ c.gid ≠ c.egid

instance (c : Credentials) : Decidable c.privileged :=
  inferInstanceAs (Decidable (c.euid = 0))

instance (c : Credentials) : Decidable c.dropped :=
  inferInstanceAs (Decidable (c.uid ≠ c.euid ∨ c.gid ≠ c.egid))

/-- `setgroups`; its result is not looked at. -/
def setgroups (c : Credentials) (groups : List UInt32) : Credentials :=
  if c.privileged ∧ noId ∉ groups then { c with groups := groups } else c

/-- `setresgid(-1, gid, -1)`. -/
def setresgid (c : Credentials) (gid : UInt32) : Option Credentials :=
  if gid = noId then some c
  else if c.privileged ∨ gid = c.gid ∨ gid = c.egid ∨ gid = c.sgid then
    some { c with egid := gid }
  else none

/-- `setresuid(-1, uid, -1)`. -/
def setresuid (c : Credentials) (uid : UInt32) : Option Credentials :=
  if uid = noId then some c
  else if c.privileged ∨ uid = c.uid ∨ uid = c.euid ∨ uid = c.suid then
    some { c with euid := uid }
  else none

/-- `setegid(getgid())`. -/
def resetGroup (c : Credentials) : Credentials := { c with egid := c.gid }

/-- `setThreadEffective(getuid(), getgid())`. -/
def resetEffective (c : Credentials) : Credentials := { c with egid := c.gid, euid := c.uid }

end Credentials

/-- Whether the kernel makes the changes of ids that it permits. -/
structure Grants where
  group : Bool
  user : Bool

/-- `setThreadEffective`, and whether it succeeded. -/
def setThreadEffective (c : Credentials) (uid gid : UInt32) (grants : Grants) :
    Credentials × Bool :=
  match if grants.group then c.setresgid gid else none with
  | none => (c, false)
  | some c =>
      match if grants.user then c.setresuid uid else none with
      | none => (c, false)
      | some c => (c, true)

/-- A handle. -/
structure Dropper where
  dropped_ : Bool
  to_user_ : UInt32
  to_group_ : UInt32
  /-- The groups to restore; the pointer is null if there are none. -/
  original_groups_ : Option (List UInt32)

def Dropper.get : Dropper := ⟨false, 0, 0, none⟩

def restoreGroups (d : Dropper) (c : Credentials) : Dropper × Credentials :=
  match d.original_groups_ with
  | some groups => ({ d with original_groups_ := none }, c.setgroups groups)
  | none => (d, c)

/-- A call of `dropTo`: its target and result, whether it got as far as the groups, and the
credentials after it. -/
structure Outcome where
  uid : UInt32
  gid : UInt32
  attempted : Bool
  result : Bool
  after : Credentials

/-- `dropTo` past its checks. -/
def attempt (d : Dropper) (c : Credentials) (uid gid : UInt32) (grants : Grants) :
    Dropper × Credentials × Bool :=
  let (d, c) := restoreGroups d c
  let d := { d with original_groups_ := if c.groups = [] then none else some c.groups }
  let c := c.setgroups [gid]
  match setThreadEffective c uid gid grants with
  | (c, false) => (d, c.resetGroup, false)
  | (c, true) => ({ d with to_user_ := uid, to_group_ := gid, dropped_ := true }, c, true)

def dropTo (d : Dropper) (c : Credentials) (uid gid : UInt32) (grants : Grants) :
    Dropper × Credentials × Outcome :=
  if uid = c.euid ∧ gid = c.egid then (d, c, ⟨uid, gid, false, true, c⟩)
  else if c.dropped ∧ uid = d.to_user_ ∧ gid = d.to_group_ then
    (d, c, ⟨uid, gid, false, true, c⟩)
  else if c.dropped then (d, c, ⟨uid, gid, false, false, c⟩)
  else
    let r := attempt d c uid gid grants
    (r.1, r.2.1, ⟨uid, gid, true, r.2.2, r.2.1⟩)

/-- The destructor. -/
def destroy (d : Dropper) (c : Credentials) : Credentials :=
  let c := if d.dropped_ then c.resetEffective else c
  (restoreGroups d c).2

/-- What is done with a handle, and in the scopes of further ones. -/
inductive Program
  | done
  | dropTo (uid gid : UInt32) (grants : Grants) (rest : Program)
  | scope (body rest : Program)

def run : Program → Dropper → Credentials → Dropper × Credentials × List Outcome
  | .done, d, c => (d, c, [])
  | .dropTo uid gid grants rest, d, c =>
      let (d, c, outcome) := dropTo d c uid gid grants
      let (d, c, outcomes) := run rest d c
      (d, c, outcome :: outcomes)
  | .scope body rest, d, c =>
      let (inner, c, before) := run body .get c
      let (d, c, outcomes) := run rest d (destroy inner c)
      (d, c, before ++ outcomes)

/-- The credentials after the scope of a handle. -/
def scope (body : Program) (c : Credentials) : Credentials :=
  destroy (run body .get c).1 (run body .get c).2.1

/-- The calls of `dropTo` in the scope of a handle. -/
def outcomes (body : Program) (c : Credentials) : List Outcome := (run body .get c).2.2

/-! ### One call -/

/-- The ids that no handle changes. -/
structure SameReal (c c' : Credentials) : Prop where
  uid : c'.uid = c.uid
  suid : c'.suid = c.suid
  gid : c'.gid = c.gid
  sgid : c'.sgid = c.sgid

theorem SameReal.refl (c : Credentials) : SameReal c c := ⟨rfl, rfl, rfl, rfl⟩

theorem SameReal.trans {c c' c'' : Credentials} (h : SameReal c c') (h' : SameReal c' c'') :
    SameReal c c'' :=
  ⟨h'.uid.trans h.uid, h'.suid.trans h.suid, h'.gid.trans h.gid, h'.sgid.trans h.sgid⟩

theorem setgroups_eq (c : Credentials) (groups : List UInt32) :
    c.setgroups groups = { c with groups := (c.setgroups groups).groups } := by
  unfold Credentials.setgroups
  split <;> rfl

theorem setresgid_eq {c c' : Credentials} {gid : UInt32} (h : c.setresgid gid = some c') :
    c' = { c with egid := c'.egid } ∧ (c'.egid = gid ∨ gid = noId) := by
  unfold Credentials.setresgid at h
  split at h
  · rename_i hgid
    rw [← Option.some.inj h]
    exact ⟨rfl, .inr hgid⟩
  · split at h
    · rw [← Option.some.inj h]
      exact ⟨rfl, .inl rfl⟩
    · cases h

theorem setresuid_eq {c c' : Credentials} {uid : UInt32} (h : c.setresuid uid = some c') :
    c' = { c with euid := c'.euid } ∧ (c'.euid = uid ∨ uid = noId) := by
  unfold Credentials.setresuid at h
  split at h
  · rename_i huid
    rw [← Option.some.inj h]
    exact ⟨rfl, .inr huid⟩
  · split at h
    · rw [← Option.some.inj h]
      exact ⟨rfl, .inl rfl⟩
    · cases h

/-- The effective ids are the ones that were asked for, as far as a change was. -/
def Reaches (c : Credentials) (uid gid : UInt32) : Prop :=
  (c.euid = uid ∨ uid = noId) ∧ (c.egid = gid ∨ gid = noId)

/-- What a change of the effective ids leaves, and what comes of it. -/
structure EffectiveOnly (c : Credentials) (uid gid : UInt32) (r : Credentials × Bool) : Prop where
  real : SameReal c r.1
  groups : r.1.groups = c.groups
  failed : r.2 = false → r.1.euid = c.euid
  succeeded : r.2 = true → Reaches r.1 uid gid

theorem effectiveOnly (c : Credentials) (uid gid : UInt32) (grants : Grants) :
    EffectiveOnly c uid gid (setThreadEffective c uid gid grants) := by
  unfold setThreadEffective
  split
  · exact ⟨.refl c, rfl, fun _ => rfl, nofun⟩
  · rename_i c₁ hgroup
    obtain ⟨h₁, hgid⟩ : c₁ = { c with egid := c₁.egid } ∧ (c₁.egid = gid ∨ gid = noId) := by
      split at hgroup
      · exact setresgid_eq hgroup
      · cases hgroup
    split
    · rw [h₁]
      exact ⟨⟨rfl, rfl, rfl, rfl⟩, rfl, fun _ => rfl, nofun⟩
    · rename_i c₂ huser
      obtain ⟨h₂, huid⟩ : c₂ = { c₁ with euid := c₂.euid } ∧ (c₂.euid = uid ∨ uid = noId) := by
        split at huser
        · exact setresuid_eq huser
        · cases huser
      have hegid : c₂.egid = c₁.egid := by rw [h₂]
      have hreaches : Reaches c₂ uid gid := ⟨huid, hegid ▸ hgid⟩
      refine ⟨?_, ?_, nofun, fun _ => hreaches⟩
      · rw [h₂, h₁]
        exact ⟨rfl, rfl, rfl, rfl⟩
      · rw [h₂, h₁]

/-- A handle does nothing while the privileges are dropped. -/
theorem dropTo_of_dropped {c : Credentials} (h : c.dropped) (d : Dropper) (uid gid : UInt32)
    (grants : Grants) : ∃ result,
      dropTo d c uid gid grants = (d, c, ⟨uid, gid, false, result, c⟩) := by
  unfold dropTo
  split
  · exact ⟨true, rfl⟩
  · split
    · exact ⟨true, rfl⟩
    · exact ⟨false, rfl⟩

/-- A handle that is not dropped goes past the checks, unless it has the ids already. -/
theorem dropTo_of_not_dropped {c : Credentials} (h : ¬ c.dropped) (d : Dropper)
    (uid gid : UInt32) (grants : Grants) :
    dropTo d c uid gid grants =
      if uid = c.euid ∧ gid = c.egid then (d, c, ⟨uid, gid, false, true, c⟩)
      else
        ((attempt d c uid gid grants).1, (attempt d c uid gid grants).2.1,
          ⟨uid, gid, true, (attempt d c uid gid grants).2.2,
            (attempt d c uid gid grants).2.1⟩) := by
  unfold dropTo
  split
  · rfl
  · rw [if_neg fun hand => h hand.1]

/-- The groups and the handle after the steps of `attempt`. -/
structure Attempted (d : Dropper) (c : Credentials) (uid gid : UInt32)
    (r : Dropper × Credentials × Bool) : Prop where
  real : SameReal c r.2.1
  groups : r.2.1.groups = ((restoreGroups d c).2.setgroups [gid]).groups
  original : r.1.original_groups_ =
    if (restoreGroups d c).2.groups = [] then none else some (restoreGroups d c).2.groups
  failed : r.2.2 = false → ¬ r.2.1.dropped ∧ r.1.dropped_ = d.dropped_ ∧
    r.1.to_user_ = d.to_user_ ∧ r.1.to_group_ = d.to_group_
  succeeded : r.2.2 = true → r.1.dropped_ = true ∧ r.1.to_user_ = uid ∧ r.1.to_group_ = gid ∧
    Reaches r.2.1 uid gid

theorem restoreGroups_real (d : Dropper) (c : Credentials) :
    (restoreGroups d c).2 = { c with groups := (restoreGroups d c).2.groups } := by
  unfold restoreGroups
  split
  · exact setgroups_eq ..
  · rfl

theorem restoreGroups_handle (d : Dropper) (c : Credentials) :
    (restoreGroups d c).1.dropped_ = d.dropped_ ∧ (restoreGroups d c).1.to_user_ = d.to_user_ ∧
      (restoreGroups d c).1.to_group_ = d.to_group_ := by
  unfold restoreGroups
  split <;> exact ⟨rfl, rfl, rfl⟩

theorem attempted_attempt {d : Dropper} {c : Credentials} (hc : ¬ c.dropped) (uid gid : UInt32)
    (grants : Grants) : Attempted d c uid gid (attempt d c uid gid grants) := by
  have hrestore := restoreGroups_real d c
  have hhandle := restoreGroups_handle d c
  generalize hd₁ : restoreGroups d c = restored at *
  have hset := setgroups_eq restored.2 [gid]
  have heffective := effectiveOnly (restored.2.setgroups [gid]) uid gid grants
  have hreal : SameReal c (restored.2.setgroups [gid]) := by
    rw [hset, hrestore]
    exact ⟨rfl, rfl, rfl, rfl⟩
  have heuid : (restored.2.setgroups [gid]).euid = c.euid := by rw [hset, hrestore]
  rw [attempt, hd₁]
  change Attempted d c uid gid
    (match setThreadEffective (restored.2.setgroups [gid]) uid gid grants with
      | (c, false) => _
      | (c, true) => _)
  generalize setThreadEffective (restored.2.setgroups [gid]) uid gid grants = result at heffective
  obtain ⟨c', succeeded⟩ := result
  have hreal' := hreal.trans heffective.real
  cases succeeded with
  | false =>
      refine ⟨⟨hreal'.1, hreal'.2, hreal'.3, hreal'.4⟩, heffective.groups.trans (by rw [hd₁]),
        by rw [hd₁], fun _ => ⟨?_, hhandle⟩, nofun⟩
      rintro (huser | hgroup)
      · refine hc (.inl ?_)
        rw [← heuid, ← heffective.failed rfl, ← hreal'.uid]
        exact huser
      · exact hgroup rfl
  | true =>
      exact ⟨hreal', heffective.groups.trans (by rw [hd₁]), by rw [hd₁], nofun,
        fun _ => ⟨rfl, rfl, rfl, heffective.succeeded rfl⟩⟩

theorem Attempted.free {d : Dropper} {c : Credentials} {uid gid : UInt32}
    {r : Dropper × Credentials × Bool} (h : Attempted d c uid gid r)
    (hfree : r.1.dropped_ = false) : ¬ r.2.1.dropped := by
  cases hresult : r.2.2 with
  | false => exact (h.failed hresult).1
  | true =>
      rw [(h.succeeded hresult).1] at hfree
      cases hfree

/-! ### The groups that come back -/

/-- The group of the first call that replaced the supplementary groups. -/
def firstGroup (calls : List Outcome) : Option UInt32 :=
  (calls.find? fun outcome => outcome.attempted ∧ outcome.gid ≠ noId).map (·.gid)

/-- The groups that the process has after calls of `dropTo`: root without supplementary groups
keeps the one of the first call. -/
def groupsAfter (c : Credentials) (calls : List Outcome) : List UInt32 :=
  if c.groups = [] ∧ c.privileged then (firstGroup calls).toList else c.groups

theorem firstGroup_append (calls more : List Outcome) :
    firstGroup (calls ++ more) = (firstGroup calls).or (firstGroup more) := by
  unfold firstGroup
  rw [List.find?_append]
  cases calls.find? fun outcome => decide (outcome.attempted = true ∧ outcome.gid ≠ noId) <;> rfl

theorem noId_ne_firstGroup {calls : List Outcome} {gid : UInt32}
    (h : firstGroup calls = some gid) : gid ≠ noId := by
  obtain ⟨outcome, hfind, rfl⟩ := Option.map_eq_some_iff.mp h
  have hpred := List.find?_some hfind
  rw [decide_eq_true_eq] at hpred
  exact hpred.2

theorem noId_notMem_groupsAfter {c : Credentials} (h : noId ∉ c.groups) (calls : List Outcome) :
    noId ∉ groupsAfter c calls := by
  unfold groupsAfter
  split
  · intro hmem
    exact noId_ne_firstGroup (Option.mem_toList.mp hmem) rfl
  · exact h

/-- Calls that come later change the groups only if none has replaced them. -/
theorem groupsAfter_append (c : Credentials) (calls more : List Outcome) :
    groupsAfter c (calls ++ more) =
      if groupsAfter c calls = [] ∧ c.privileged then (firstGroup more).toList
      else groupsAfter c calls := by
  unfold groupsAfter
  rw [firstGroup_append]
  by_cases hc : c.groups = [] ∧ c.privileged
  · rw [if_pos hc, if_pos hc]
    cases firstGroup calls with
    | none => exact (if_pos ⟨rfl, hc.2⟩).symm
    | some gid => exact (if_neg fun hand => nomatch hand.1).symm
  · rw [if_neg hc, if_neg hc, if_neg hc]

/-- The state of a handle and the credentials after calls of `dropTo` in its scope. -/
structure Within (c₀ : Credentials) (calls : List Outcome) (d : Dropper) (c : Credentials) :
    Prop where
  real : SameReal c₀ c
  free : d.dropped_ = false → ¬ c.dropped
  unsaved : d.original_groups_ = none → c.groups = groupsAfter c₀ calls
  saved : ∀ groups, d.original_groups_ = some groups → groups = groupsAfter c₀ calls ∧ groups ≠ []
  held : c₀.privileged → d.original_groups_.isSome → c.groups ≠ []
  unprivileged : ¬ c₀.privileged → c.groups = c₀.groups
  valid : noId ∉ c.groups

variable {c₀ : Credentials} {calls : List Outcome} {d : Dropper} {c : Credentials}

theorem within_get (h : ¬ c₀.dropped) (hvalid : noId ∉ c₀.groups) : Within c₀ [] .get c₀ where
  real := .refl c₀
  free _ := h
  unsaved _ := by
    unfold groupsAfter
    split
    · rename_i hempty
      exact hempty.1
    · rfl
  saved _ hsome := nomatch hsome
  held _ hsome := nomatch hsome
  unprivileged _ := rfl
  valid := hvalid

theorem not_dropped_iff (c : Credentials) : ¬ c.dropped ↔ c.uid = c.euid ∧ c.gid = c.egid := by
  rw [Credentials.dropped, not_or, not_not, not_not]

theorem privileged_of_not_dropped (hc₀ : ¬ c₀.dropped) (hreal : SameReal c₀ c) (hc : ¬ c.dropped) :
    c.privileged ↔ c₀.privileged := by
  rw [not_dropped_iff] at hc₀ hc
  rw [Credentials.privileged, Credentials.privileged, ← hc.1, hreal.uid, hc₀.1]

/-- When the ids are the real ones, the groups come back that there were. -/
theorem Within.restoreGroups_groups (h : Within c₀ calls d c) (hc₀ : ¬ c₀.dropped)
    (hvalid : noId ∉ c₀.groups) (hc : ¬ c.dropped) :
    (restoreGroups d c).2.groups = groupsAfter c₀ calls := by
  have hprivileged := privileged_of_not_dropped hc₀ h.real hc
  unfold restoreGroups
  split
  · rename_i groups hsaved
    obtain ⟨hgroups, -⟩ := h.saved groups hsaved
    change (c.setgroups groups).groups = _
    unfold Credentials.setgroups
    split
    · exact hgroups
    · rename_i hnot
      have hunprivileged : ¬ c₀.privileged := fun hp =>
        hnot ⟨hprivileged.mpr hp, hgroups ▸ noId_notMem_groupsAfter hvalid calls⟩
      rw [h.unprivileged hunprivileged, groupsAfter, if_neg fun hand => hunprivileged hand.2]
  · rename_i hunsaved
    exact h.unsaved hunsaved

/-- Calls that replaced no groups make no difference. -/
theorem Within.append (h : Within c₀ calls d c) {more : List Outcome}
    (hmore : firstGroup more = none) : Within c₀ (calls ++ more) d c := by
  have hsame : groupsAfter c₀ (calls ++ more) = groupsAfter c₀ calls := by
    rw [groupsAfter_append, hmore]
    split
    · rename_i hand
      exact hand.1.symm
    · rfl
  exact ⟨h.real, h.free, hsame ▸ h.unsaved, hsame ▸ h.saved, h.held, h.unprivileged, h.valid⟩

theorem firstGroup_unattempted {outcome : Outcome} (h : outcome.attempted = false) :
    firstGroup [outcome] = none := by
  rw [firstGroup, List.find?_singleton, if_neg fun hand => ?_, Option.map_none]
  rw [decide_eq_true_eq, h] at hand
  exact Bool.noConfusion hand.1

theorem firstGroup_attempted {outcome : Outcome} (h : outcome.attempted = true) :
    (firstGroup [outcome]).toList = if noId ∉ [outcome.gid] then [outcome.gid] else [] := by
  rw [firstGroup, List.find?_singleton]
  by_cases hgid : outcome.gid = noId
  · rw [if_neg fun hand => (of_decide_eq_true hand).2 hgid, if_neg fun hnot =>
      hnot (List.mem_singleton.mpr hgid.symm)]
    rfl
  · rw [if_pos (decide_eq_true ⟨h, hgid⟩), if_pos fun hmem =>
      hgid (List.mem_singleton.mp hmem).symm]
    rfl

theorem Within.attempt (h : Within c₀ calls d c) (hc₀ : ¬ c₀.dropped) (hvalid : noId ∉ c₀.groups)
    (hc : ¬ c.dropped) (uid gid : UInt32) (grants : Grants) {outcome : Outcome}
    (hattempted : outcome.attempted = true) (hgid : outcome.gid = gid) :
    Within c₀ (calls ++ [outcome]) (attempt d c uid gid grants).1
      (attempt d c uid gid grants).2.1 := by
  have hspec := attempted_attempt hc (d := d) uid gid grants
  generalize DropPrivileges.attempt d c uid gid grants = r at hspec
  have hrestored := h.restoreGroups_groups hc₀ hvalid hc
  have hprivileged : (restoreGroups d c).2.privileged ↔ c₀.privileged := by
    rw [restoreGroups_real]
    exact (privileged_of_not_dropped hc₀ h.real hc : c.privileged ↔ _)
  have hgroups : r.2.1.groups =
      if c₀.privileged ∧ noId ∉ [gid] then [gid] else groupsAfter c₀ calls := by
    rw [hspec.groups, Credentials.setgroups, apply_ite Credentials.groups, hrestored]
    exact if_congr (and_congr_left' hprivileged) rfl rfl
  have hafter := groupsAfter_append c₀ calls [outcome]
  rw [firstGroup_attempted hattempted, hgid] at hafter
  have horiginal := hspec.original
  rw [hrestored] at horiginal
  refine ⟨h.real.trans hspec.real, hspec.free, fun hnone => ?_, fun groups hsome => ?_,
    fun hp hsome => ?_, fun hp => ?_, ?_⟩
  · -- Nothing was saved, so there were no groups.
    have hempty : groupsAfter c₀ calls = [] := by
      by_contra hne
      rw [horiginal, if_neg hne] at hnone
      cases hnone
    rw [hgroups, hafter, hempty]
    by_cases hp : c₀.privileged <;> simp [hp]
  · have hne : groupsAfter c₀ calls ≠ [] := by
      intro hempty
      rw [horiginal, if_pos hempty] at hsome
      cases hsome
    rw [horiginal, if_neg hne, Option.some.injEq] at hsome
    rw [hafter, if_neg fun hand => hne hand.1, ← hsome]
    exact ⟨rfl, hne⟩
  · have hne : groupsAfter c₀ calls ≠ [] := by
      intro hempty
      rw [horiginal, if_pos hempty] at hsome
      cases hsome
    rw [hgroups]
    split
    · exact List.cons_ne_nil _ _
    · exact hne
  · rw [hgroups, if_neg fun hand => hp hand.1, groupsAfter, if_neg fun hand => hp hand.2]
  · rw [hgroups]
    split
    · rename_i hand
      exact hand.2
    · exact noId_notMem_groupsAfter hvalid calls

theorem Within.dropTo (h : Within c₀ calls d c) (hc₀ : ¬ c₀.dropped) (hvalid : noId ∉ c₀.groups)
    (uid gid : UInt32) (grants : Grants) :
    Within c₀ (calls ++ [(dropTo d c uid gid grants).2.2]) (dropTo d c uid gid grants).1
      (dropTo d c uid gid grants).2.1 := by
  by_cases hc : c.dropped
  · obtain ⟨result, heq⟩ := dropTo_of_dropped hc d uid gid grants
    rw [heq]
    exact h.append (firstGroup_unattempted rfl)
  · rw [dropTo_of_not_dropped hc]
    split
    · exact h.append (firstGroup_unattempted rfl)
    · exact h.attempt hc₀ hvalid hc uid gid grants rfl rfl

/-- The destructor gives back the ids and the groups. -/
theorem Within.destroy (h : Within c₀ calls d c) (hc₀ : ¬ c₀.dropped)
    (hvalid : noId ∉ c₀.groups) :
    destroy d c = { c₀ with groups := groupsAfter c₀ calls } := by
  have hids := (not_dropped_iff c₀).mp hc₀
  have hback : Within c₀ calls d (if d.dropped_ then c.resetEffective else c) ∧
      ¬ (if d.dropped_ then c.resetEffective else c).dropped := by
    cases hd : d.dropped_ with
    | false => exact ⟨h, h.free hd⟩
    | true =>
        have hnot : ¬ c.resetEffective.dropped := (not_dropped_iff _).mpr ⟨rfl, rfl⟩
        exact ⟨⟨⟨h.real.1, h.real.2, h.real.3, h.real.4⟩, fun _ => hnot, h.unsaved, h.saved,
          h.held, h.unprivileged, h.valid⟩, hnot⟩
  change (restoreGroups d (if d.dropped_ then c.resetEffective else c)).2 = _
  generalize (if d.dropped_ then c.resetEffective else c) = c' at hback
  obtain ⟨hwithin, hnot⟩ := hback
  have hreal := hwithin.real
  have hids' := (not_dropped_iff c').mp hnot
  rw [restoreGroups_real, hwithin.restoreGroups_groups hc₀ hvalid hnot]
  rw [Credentials.mk.injEq]
  exact ⟨hreal.uid, hids'.1.symm.trans (hreal.uid.trans hids.1), hreal.suid, hreal.gid,
    hids'.2.symm.trans (hreal.gid.trans hids.2), hreal.sgid, rfl⟩

/-! ### Scopes -/

/-- Nothing happens in a scope while the privileges are dropped. -/
theorem run_of_dropped {c : Credentials} (hc : c.dropped) (body : Program) (d : Dropper) :
    (run body d c).1 = d ∧ (run body d c).2.1 = c ∧
      ∀ outcome ∈ (run body d c).2.2, outcome.attempted = false ∧ outcome.after = c := by
  induction body generalizing d with
  | done => exact ⟨rfl, rfl, nofun⟩
  | dropTo uid gid grants rest ih =>
      obtain ⟨result, heq⟩ := dropTo_of_dropped hc d uid gid grants
      obtain ⟨hd, hc', hout⟩ := ih d
      simp only [run, heq]
      refine ⟨hd, hc', fun outcome hmem => ?_⟩
      rcases List.mem_cons.mp hmem with rfl | hmem
      · exact ⟨rfl, rfl⟩
      · exact hout outcome hmem
  | scope inner rest ihinner ihrest =>
      obtain ⟨hd₁, hc₁, hout₁⟩ := ihinner .get
      obtain ⟨hd₂, hc₂, hout₂⟩ := ihrest d
      have hdestroy : destroy (run inner .get c).1 (run inner .get c).2.1 = c := by
        rw [hd₁, hc₁]
        rfl
      simp only [run, hdestroy]
      refine ⟨hd₂, hc₂, fun outcome hmem => ?_⟩
      exact (List.mem_append.mp hmem).elim (hout₁ outcome) (hout₂ outcome)

theorem firstGroup_eq_none {calls : List Outcome}
    (h : ∀ outcome ∈ calls, outcome.attempted = false) : firstGroup calls = none := by
  rw [firstGroup, List.find?_eq_none.mpr fun outcome hmem hand => ?_, Option.map_none]
  rw [decide_eq_true_eq, h outcome hmem] at hand
  exact Bool.noConfusion hand.1

theorem scope_of_dropped {c : Credentials} (hc : c.dropped) (body : Program) :
    scope body c = c := by
  obtain ⟨hd, hc', -⟩ := run_of_dropped hc body .get
  rw [scope, hd, hc']
  rfl

/-- The scope of another handle in that of one that has not dropped the privileges. -/
theorem Within.nested (h : Within c₀ calls d c) (hc₀ : ¬ c₀.dropped) (hc : ¬ c.dropped)
    (inner : List Outcome) :
    Within c₀ (calls ++ inner) d { c with groups := groupsAfter c inner } := by
  have hprivileged := privileged_of_not_dropped hc₀ h.real hc
  by_cases hempty : c.groups = [] ∧ c.privileged
  · have hunsaved : d.original_groups_ = none := by
      cases hsaved : d.original_groups_ with
      | none => rfl
      | some groups =>
          exact absurd hempty.1 (h.held (hprivileged.mp hempty.2) (by rw [hsaved]; rfl))
    have hbefore : groupsAfter c₀ calls = [] := (h.unsaved hunsaved).symm.trans hempty.1
    have hgroups : groupsAfter c inner = groupsAfter c₀ (calls ++ inner) := by
      rw [groupsAfter_append, if_pos ⟨hbefore, hprivileged.mp hempty.2⟩, groupsAfter, if_pos hempty]
    refine ⟨⟨h.real.1, h.real.2, h.real.3, h.real.4⟩, h.free, fun _ => hgroups, ?_, ?_, ?_, ?_⟩
    · rw [hunsaved]
      nofun
    · rw [hunsaved]
      nofun
    · exact fun hp => absurd (hprivileged.mp hempty.2) hp
    · exact noId_notMem_groupsAfter h.valid inner
  · have hgroups : groupsAfter c inner = c.groups := if_neg hempty
    have hsame : groupsAfter c₀ (calls ++ inner) = groupsAfter c₀ calls := by
      rw [groupsAfter_append, if_neg]
      rintro ⟨hbefore, hp⟩
      cases hsaved : d.original_groups_ with
      | none => exact hempty ⟨(h.unsaved hsaved).trans hbefore, hprivileged.mpr hp⟩
      | some groups =>
          obtain ⟨heq, hne⟩ := h.saved groups hsaved
          exact hne (heq.trans hbefore)
    rw [hgroups]
    exact ⟨h.real, h.free, hsame ▸ h.unsaved, hsame ▸ h.saved, h.held, h.unprivileged, h.valid⟩

theorem Within.run {c₀ : Credentials} (hc₀ : ¬ c₀.dropped) (hvalid : noId ∉ c₀.groups)
    (body : Program) {calls : List Outcome} {d : Dropper} {c : Credentials}
    (h : Within c₀ calls d c) :
    Within c₀ (calls ++ (run body d c).2.2) (run body d c).1 (run body d c).2.1 := by
  induction body generalizing c₀ calls d c with
  | done => exact h.append rfl
  | dropTo uid gid grants rest ih =>
      have hnext := ih hc₀ hvalid (h.dropTo hc₀ hvalid uid gid grants)
      rw [List.append_assoc] at hnext
      exact hnext
  | scope inner rest ihinner ihrest =>
      have hdestroyed : Within c₀ (calls ++ (DropPrivileges.run inner .get c).2.2) d
          (DropPrivileges.destroy (DropPrivileges.run inner .get c).1
            (DropPrivileges.run inner .get c).2.1) := by
        by_cases hc : c.dropped
        · obtain ⟨hd, hc', hout⟩ := run_of_dropped hc inner .get
          rw [hd, hc']
          exact h.append (firstGroup_eq_none fun outcome hmem => (hout outcome hmem).1)
        · have hinner := ihinner hc h.valid (within_get hc h.valid)
          rw [hinner.destroy hc h.valid]
          exact h.nested hc₀ hc _
      have hnext := ihrest hc₀ hvalid hdestroyed
      rw [List.append_assoc] at hnext
      exact hnext

/-- When a handle is gone, everything is as it was before, except that root without supplementary
groups keeps the group of the first call that got as far as replacing them. -/
theorem scope_eq {c : Credentials} (hvalid : noId ∉ c.groups) (body : Program) :
    scope body c = { c with groups := groupsAfter c (outcomes body c) } := by
  by_cases hc : c.dropped
  · obtain ⟨-, -, hout⟩ := run_of_dropped hc body .get
    have hnone : firstGroup (outcomes body c) = none :=
      firstGroup_eq_none fun outcome hmem => (hout outcome hmem).1
    have hgroups : groupsAfter c (outcomes body c) = c.groups := by
      unfold groupsAfter
      split
      · rename_i hempty
        rw [hnone, hempty.1]
        rfl
      · rfl
    rw [scope_of_dropped hc, hgroups]
  · exact ((within_get hc hvalid).run hc hvalid body).destroy hc hvalid

/-- Root, without supplementary groups. -/
def root : Credentials := ⟨0, 0, 0, 0, 0, 0, []⟩

/-- The files of one user are read. -/
def oneUser : Program := .dropTo 1000 100 ⟨true, true⟩ .done

theorem scope_oneUser :
    scope oneUser root = { root with groups := groupsAfter root (outcomes oneUser root) } :=
  scope_eq List.not_mem_nil oneUser

/-- Root keeps the group of the user. -/
example : (scope oneUser root).groups = [100] := by decide

/-! ### What a call promises -/

/-- What a handle remembers of the ids it has dropped the privileges to. -/
structure Aimed (d : Dropper) (c : Credentials) : Prop where
  free : d.dropped_ = false → ¬ c.dropped ∧ d.to_user_ = 0 ∧ d.to_group_ = 0
  aim : d.dropped_ = true → c.dropped → Reaches c d.to_user_ d.to_group_

/-- A call that returns true has the ids it was asked for, or was asked for those of root. -/
def Kept (outcome : Outcome) : Prop :=
  outcome.result = true →
    Reaches outcome.after outcome.uid outcome.gid ∨ outcome.uid = 0 ∧ outcome.gid = 0

theorem kept_dropTo {d : Dropper} {c : Credentials} (hd : d.dropped_ = true → c.dropped →
      Reaches c d.to_user_ d.to_group_)
    (hnew : d.dropped_ = false → d.to_user_ = 0 ∧ d.to_group_ = 0) (uid gid : UInt32)
    (grants : Grants) : Kept (dropTo d c uid gid grants).2.2 := by
  unfold dropTo
  split
  · rename_i hsame
    exact fun _ => .inl ⟨.inl hsame.1.symm, .inl hsame.2.symm⟩
  · split
    · rename_i hto
      intro _
      change Reaches c uid gid ∨ uid = 0 ∧ gid = 0
      rw [hto.2.1, hto.2.2]
      cases hdropped_ : d.dropped_ with
      | true => exact .inl (hd hdropped_ hto.1)
      | false => exact .inr (hnew hdropped_)
    · split
      · exact nofun
      · rename_i hc
        exact fun hresult => .inl ((attempted_attempt hc uid gid grants).succeeded hresult).2.2.2

/-- In a scope in which the privileges are dropped, a call returns true for the ids that the
thread has and for those of root. -/
theorem kept_of_dropped {c : Credentials} (hc : c.dropped) (body : Program) {d : Dropper}
    (hd : d.dropped_ = true → Reaches c d.to_user_ d.to_group_)
    (hnew : d.dropped_ = false → d.to_user_ = 0 ∧ d.to_group_ = 0) :
    ∀ outcome ∈ (run body d c).2.2, Kept outcome := by
  induction body generalizing d with
  | done => exact nofun
  | dropTo uid gid grants rest ih =>
      obtain ⟨result, heq⟩ := dropTo_of_dropped hc d uid gid grants
      have hkept := kept_dropTo (fun h _ => hd h) hnew uid gid grants
      rw [heq] at hkept
      simp only [run, heq]
      exact List.forall_mem_cons.mpr ⟨hkept, ih hd hnew⟩
  | scope inner rest ihinner ihrest =>
      obtain ⟨hd₁, hc₁, -⟩ := run_of_dropped hc inner .get
      have hdestroy : destroy (run inner .get c).1 (run inner .get c).2.1 = c := by
        rw [hd₁, hc₁]
        rfl
      simp only [run, hdestroy]
      exact List.forall_mem_append.mpr
        ⟨ihinner nofun fun _ => ⟨rfl, rfl⟩, ihrest hd hnew⟩

theorem Aimed.dropTo {d : Dropper} {c : Credentials} (h : Aimed d c) (uid gid : UInt32)
    (grants : Grants) :
    Aimed (dropTo d c uid gid grants).1 (dropTo d c uid gid grants).2.1 := by
  by_cases hc : c.dropped
  · obtain ⟨result, heq⟩ := dropTo_of_dropped hc d uid gid grants
    rw [heq]
    exact h
  · rw [dropTo_of_not_dropped hc]
    split
    · exact h
    · have hspec := attempted_attempt hc (d := d) uid gid grants
      change Aimed (attempt d c uid gid grants).1 (attempt d c uid gid grants).2.1
      cases hresult : (attempt d c uid gid grants).2.2 with
      | false =>
          obtain ⟨hnot, hdropped_, huser, hgroup⟩ := hspec.failed hresult
          refine ⟨fun hfree => ⟨hnot, ?_⟩, fun _ hdropped => absurd hdropped hnot⟩
          rw [huser, hgroup]
          exact (h.free (hdropped_ ▸ hfree)).2
      | true =>
          obtain ⟨hdropped_, huser, hgroup, hreaches⟩ := hspec.succeeded hresult
          refine ⟨fun hfree => ?_, fun _ _ => ?_⟩
          · rw [hdropped_] at hfree
            cases hfree
          · rw [huser, hgroup]
            exact hreaches

/-- The privileges are not dropped when the handle of a scope is gone. -/
theorem Aimed.not_dropped {d : Dropper} {c : Credentials} (h : Aimed d c) :
    ¬ (destroy d c).dropped := by
  have hback : ¬ (if d.dropped_ then c.resetEffective else c).dropped := by
    cases hd : d.dropped_ with
    | false => exact (h.free hd).1
    | true => exact (not_dropped_iff _).mpr ⟨rfl, rfl⟩
  change ¬ (restoreGroups d (if d.dropped_ then c.resetEffective else c)).2.dropped
  rw [restoreGroups_real]
  exact hback

theorem Aimed.run {d : Dropper} {c : Credentials} (h : Aimed d c) (body : Program) :
    Aimed (run body d c).1 (run body d c).2.1 ∧ ∀ outcome ∈ (run body d c).2.2, Kept outcome := by
  induction body generalizing d c with
  | done => exact ⟨h, nofun⟩
  | dropTo uid gid grants rest ih =>
      obtain ⟨hnext, hkept⟩ := ih (h.dropTo uid gid grants)
      refine ⟨hnext, List.forall_mem_cons.mpr ⟨?_, hkept⟩⟩
      exact kept_dropTo h.aim (fun hfree => (h.free hfree).2) uid gid grants
  | scope inner rest ihinner ihrest =>
      by_cases hc : c.dropped
      · have hd : d.dropped_ = true := by
          by_contra hfree
          exact (h.free (Bool.not_eq_true _ ▸ hfree)).1 hc
        obtain ⟨hd₁, hc₁, -⟩ := run_of_dropped hc inner .get
        have hdestroy : destroy (DropPrivileges.run inner .get c).1
            (DropPrivileges.run inner .get c).2.1 = c := by
          rw [hd₁, hc₁]
          rfl
        have hrest := ihrest h
        simp only [DropPrivileges.run, hdestroy]
        exact ⟨hrest.1, List.forall_mem_append.mpr
          ⟨kept_of_dropped hc inner nofun fun _ => ⟨rfl, rfl⟩, hrest.2⟩⟩
      · obtain ⟨hinner, hkept⟩ := ihinner (d := .get) (c := c)
          ⟨fun _ => ⟨hc, rfl, rfl⟩, fun h => nomatch h⟩
        have hnot := hinner.not_dropped
        have haimed : Aimed d (destroy (DropPrivileges.run inner .get c).1
            (DropPrivileges.run inner .get c).2.1) :=
          ⟨fun hfree => ⟨hnot, (h.free hfree).2⟩, fun _ hdropped => absurd hdropped hnot⟩
        have hrest := ihrest haimed
        exact ⟨hrest.1, List.forall_mem_append.mpr ⟨hkept, hrest.2⟩⟩

/-- Whatever handles are taken and given back, a call that returns true has the ids it was asked
for, unless these are the ones of root. -/
theorem kept_outcomes (body : Program) (c : Credentials) :
    ∀ outcome ∈ outcomes body c, Kept outcome := by
  by_cases hc : c.dropped
  · exact kept_of_dropped hc body nofun fun _ => ⟨rfl, rfl⟩
  · exact (Aimed.run (d := .get) ⟨fun _ => ⟨hc, rfl, rfl⟩, fun h => nomatch h⟩ body).2

theorem kept_oneUser :
    Kept ⟨1000, 100, true, true, { root with euid := 1000, egid := 100, groups := [100] }⟩ :=
  kept_outcomes oneUser root _ (List.mem_cons.mpr (.inl rfl))

/-- A new handle takes the ids of root for those it has dropped the privileges to. -/
example : (outcomes (.dropTo 1000 100 ⟨true, true⟩ (.scope (.dropTo 0 0 ⟨true, true⟩ .done) .done))
    root).map (fun outcome => (outcome.result, outcome.after.euid)) =
      [(true, 1000), (true, 1000)] := by decide

end Osquery.Core.DropPrivileges
