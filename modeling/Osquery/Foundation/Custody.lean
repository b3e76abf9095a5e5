import Mathlib.Data.List.Nodup

/-!
# Custody of items

Items are logged under distinct keys and leave by one of two exits: they are sent
or they are dropped. A store tracks a ledger if it has the items that did not
leave, and those that left and are still to be removed.
-/

namespace Osquery.Foundation.Custody

variable {κ : Type*}

/-- The items that came in, and those that left by either exit. -/
structure Ledger (κ : Type*) where
  logged : List κ
  sent : List κ
  dropped : List κ

/-- Exactly one of three statements holds. -/
def ExactlyOne (p q r : Prop) : Prop :=
  (p ∧ ¬q ∧ ¬r) ∨ (¬p ∧ q ∧ ¬r) ∨ (¬p ∧ ¬q ∧ r)

namespace Ledger

def gone (l : Ledger κ) : List κ := l.sent ++ l.dropped

/-- The item came in and did not leave. -/
def Held (l : Ledger κ) (k : κ) : Prop := k ∈ l.logged ∧ k ∉ l.gone

def log (l : Ledger κ) (k : κ) : Ledger κ := { l with logged := l.logged ++ [k] }

def send (l : Ledger κ) (ks : List κ) : Ledger κ := { l with sent := l.sent ++ ks }

def drop (l : Ledger κ) (ks : List κ) : Ledger κ := { l with dropped := l.dropped ++ ks }

/-- No item comes in twice or leaves twice, and what leaves came in. -/
structure Balanced (l : Ledger κ) : Prop where
  nodup_logged : l.logged.Nodup
  nodup_gone : l.gone.Nodup
  logged_of_gone : ∀ k ∈ l.gone, k ∈ l.logged

variable {l : Ledger κ} {k : κ} {ks : List κ}

theorem mem_gone : k ∈ l.gone ↔ k ∈ l.sent ∨ k ∈ l.dropped := List.mem_append

theorem mem_gone_send : k ∈ (l.send ks).gone ↔ k ∈ l.gone ∨ k ∈ ks := by
  simp only [mem_gone, send, List.mem_append]
  tauto

theorem mem_gone_drop : k ∈ (l.drop ks).gone ↔ k ∈ l.gone ∨ k ∈ ks := by
  simp only [mem_gone, drop, List.mem_append]
  tauto

theorem held_log {a : κ} (hk : k ∉ l.gone) : (l.log k).Held a ↔ l.Held a ∨ a = k := by
  simp only [Held, log, List.mem_append, List.mem_singleton]
  constructor
  · rintro ⟨h | rfl, hnot⟩
    · exact Or.inl ⟨h, hnot⟩
    · exact Or.inr rfl
  · rintro (⟨h, hnot⟩ | rfl)
    · exact ⟨Or.inl h, hnot⟩
    · exact ⟨Or.inr rfl, hk⟩

theorem held_send {a : κ} : (l.send ks).Held a ↔ l.Held a ∧ a ∉ ks := by
  rw [Held, Held, mem_gone_send, not_or, ← and_assoc]
  rfl

theorem held_drop {a : κ} : (l.drop ks).Held a ↔ l.Held a ∧ a ∉ ks := by
  rw [Held, Held, mem_gone_drop, not_or, ← and_assoc]
  rfl

namespace Balanced

theorem log (h : l.Balanced) (hk : k ∉ l.logged) : (l.log k).Balanced := by
  constructor
  · apply h.nodup_logged.append (List.nodup_singleton k)
    intro a ha hak
    exact hk (List.mem_singleton.mp hak ▸ ha)
  · exact h.nodup_gone
  · intro a ha
    exact List.mem_append_left _ (h.logged_of_gone a ha)

/-- Held items leave together by the first exit. -/
theorem send (h : l.Balanced) (hks : ks.Nodup) (hheld : ∀ k ∈ ks, l.Held k) :
    (l.send ks).Balanced := by
  have hperm : (l.send ks).gone.Perm (l.gone ++ ks) := by
    change ((l.sent ++ ks) ++ l.dropped).Perm ((l.sent ++ l.dropped) ++ ks)
    rw [List.append_assoc, List.append_assoc]
    exact List.Perm.append_left l.sent List.perm_append_comm
  constructor
  · exact h.nodup_logged
  · apply hperm.nodup_iff.mpr
    exact h.nodup_gone.append hks fun a ha hak => (hheld a hak).2 ha
  · intro a ha
    rcases mem_gone_send.mp ha with ha | ha
    · exact h.logged_of_gone a ha
    · exact (hheld a ha).1

/-- Held items leave together by the second exit. -/
theorem drop (h : l.Balanced) (hks : ks.Nodup) (hheld : ∀ k ∈ ks, l.Held k) :
    (l.drop ks).Balanced := by
  have heq : (l.drop ks).gone = l.gone ++ ks := (List.append_assoc _ _ _).symm
  constructor
  · exact h.nodup_logged
  · rw [heq]
    exact h.nodup_gone.append hks fun a ha hak => (hheld a hak).2 ha
  · intro a ha
    rcases mem_gone_drop.mp ha with ha | ha
    · exact h.logged_of_gone a ha
    · exact (hheld a ha).1

/-- An item that came in is held, was sent or was dropped, and only one of these. -/
theorem exactly_one (h : l.Balanced) (hk : k ∈ l.logged) :
    ExactlyOne (l.Held k) (k ∈ l.sent) (k ∈ l.dropped) := by
  have hdisjoint := List.disjoint_of_nodup_append h.nodup_gone
  by_cases hsent : k ∈ l.sent
  · refine Or.inr (Or.inl ⟨fun hheld => hheld.2 (mem_gone.mpr (Or.inl hsent)), hsent, ?_⟩)
    exact fun hdropped => hdisjoint hsent hdropped
  · by_cases hdropped : k ∈ l.dropped
    · exact Or.inr (Or.inr ⟨fun hheld => hheld.2 (mem_gone.mpr (Or.inr hdropped)), hsent,
        hdropped⟩)
    · refine Or.inl ⟨⟨hk, ?_⟩, hsent, hdropped⟩
      rw [mem_gone, not_or]
      exact ⟨hsent, hdropped⟩

end Balanced

/-! ### A store that tracks a ledger -/

/-- The store has the held items and those that left and await their removal. -/
structure Tracks (l : Ledger κ) (present : κ → Prop) (pending : List κ) : Prop where
  balanced : l.Balanced
  present_iff : ∀ k, present k ↔ l.Held k ∨ k ∈ pending
  gone_of_pending : ∀ k ∈ pending, k ∈ l.gone
  nodup_pending : pending.Nodup

namespace Tracks

variable {present present' : κ → Prop} {pending : List κ}

theorem log (h : Tracks l present pending) (hk : k ∉ l.logged)
    (hpresent : ∀ a, present' a ↔ present a ∨ a = k) : Tracks (l.log k) present' pending := by
  have hgone : k ∉ l.gone := fun hmem => hk (h.balanced.logged_of_gone k hmem)
  refine ⟨h.balanced.log hk, ?_, h.gone_of_pending, h.nodup_pending⟩
  intro a
  rw [hpresent, h.present_iff, held_log hgone]
  tauto

/-- What is sent awaits its removal. -/
theorem send (h : Tracks l present []) (hks : ks.Nodup) (hheld : ∀ k ∈ ks, l.Held k) :
    Tracks (l.send ks) present ks := by
  refine ⟨h.balanced.send hks hheld, ?_, fun k hk => mem_gone_send.mpr (Or.inr hk), hks⟩
  intro a
  rw [h.present_iff, held_send]
  by_cases ha : a ∈ ks
  · simp [ha, hheld a ha]
  · simp [ha]

/-- What is dropped awaits its removal. -/
theorem drop (h : Tracks l present []) (hks : ks.Nodup) (hheld : ∀ k ∈ ks, l.Held k) :
    Tracks (l.drop ks) present ks := by
  refine ⟨h.balanced.drop hks hheld, ?_, fun k hk => mem_gone_drop.mpr (Or.inr hk), hks⟩
  intro a
  rw [h.present_iff, held_drop]
  by_cases ha : a ∈ ks
  · simp [ha, hheld a ha]
  · simp [ha]

theorem remove (h : Tracks l present (k :: pending))
    (hpresent : ∀ a, present' a ↔ present a ∧ a ≠ k) : Tracks l present' pending := by
  obtain ⟨hk, hnodup⟩ := List.nodup_cons.mp h.nodup_pending
  refine ⟨h.balanced, ?_, fun a ha => h.gone_of_pending a (List.mem_cons_of_mem _ ha), hnodup⟩
  intro a
  rw [hpresent, h.present_iff, List.mem_cons]
  constructor
  · rintro ⟨hheld | rfl | hmem, hne⟩
    · exact Or.inl hheld
    · exact absurd rfl hne
    · exact Or.inr hmem
  · rintro (hheld | hmem)
    · refine ⟨Or.inl hheld, ?_⟩
      rintro rfl
      exact hheld.2 (h.gone_of_pending a List.mem_cons_self)
    · refine ⟨Or.inr (Or.inr hmem), ?_⟩
      rintro rfl
      exact hk hmem

theorem present_of_pending (h : Tracks l present pending) (hk : k ∈ pending) : present k :=
  (h.present_iff k).mpr (Or.inr hk)

/-- What the store has and does not await its removal is held. -/
theorem held_iff (h : Tracks l present pending) : l.Held k ↔ present k ∧ k ∉ pending := by
  rw [h.present_iff]
  constructor
  · exact fun hheld => ⟨Or.inl hheld, fun hk => hheld.2 (h.gone_of_pending k hk)⟩
  · rintro ⟨hheld | hk, hnot⟩
    · exact hheld
    · exact absurd hk hnot

end Tracks

end Ledger

end Osquery.Foundation.Custody
