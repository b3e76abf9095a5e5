import Osquery.EventSubscribers.Recording

/-!
# Event ids across restarts

Ids are handed out from memory and reserved in the database ten at a time. A
restart forgets the id in memory and continues after the whole reservation, so
the ids of a namespace increase over any sequence of draws and restarts.

## Implementation notes

The greatest id that was handed out is not stored anywhere: `Reserves` relates
it to the stored reservation, which is the least multiple of ten that is not
below it. The id in memory is a natural number for a `size_t`: a call takes at most
ten numbers, and the results are about runs that stay below `2 ^ 64`.
-/

namespace Osquery.EventSubscribers

open Foundation.AtomicProgram Foundation.JsonText Foundation.Numeral Foundation.Separated
open Core.BackingStore Core.Conversions Core.Rows

variable {sub : Subscriber} {s : State}

/-! ### The stored reservation -/

theorem lexicalCast_toIndex (n : ℕ) :
    lexicalCast (toIndex n) = if n < 2 ^ 64 then some (UInt64.ofNat n) else none := by
  have hdigits : ∀ c ∈ (toIndex n).toList, c.isDigit = true := fun c hc => isDigit_of_mem_padded hc
  obtain ⟨c, rest, hc⟩ := List.exists_cons_of_ne_nil (padded_ne_nil 10 n)
  have hsign : splitSign (toIndex n).toList = (false, (toIndex n).toList) := by
    rw [toIndex, hc]
    exact splitSign_of_isDigit (hdigits c (hc ▸ List.mem_cons_self))
  have hany : (toIndex n).toList.any (fun c => !c.isDigit) = false := by
    rw [List.any_eq_false]
    intro d hd
    simp [hdigits d hd]
  have hne : (toIndex n).toList ≠ [] := padded_ne_nil 10 n
  rw [lexicalCast, hsign]
  simp only [hne, hany, Bool.false_eq_true, or_self, if_false]
  rw [toIndex, ofDigitChars_padded]

/-- The reservation that the database holds for a namespace. -/
structure StoredReservation (ns : String) (db : Database) (c : ℕ) : Prop where
  value : valueAt db (eidKey ns) = "" ∧ c = 0 ∨ valueAt db (eidKey ns) = toIndex c
  whole : c % 10 = 0

theorem StoredReservation.set (ns : String) (db : Database) {c : ℕ} (h : c % 10 = 0) :
    StoredReservation ns (Ephemeral.setValue db kEvents (eidKey ns) (toIndex c)) c := by
  refine ⟨Or.inr ?_, h⟩
  rw [valueAt_setValue, if_pos rfl]

/-- The id in memory is restored from the reservation, which has to fit `size_t`. -/
theorem run_restoreEid_stored {c : ℕ} (h : StoredReservation sub.dbNamespace s.db c)
    (hlast : s.members.lastEid = 0) :
    (restoreEid sub).run s =
      if c < 2 ^ 64 then (.ok (), ⟨s.db, { s.members with lastEid := c }⟩)
      else (.error .badLexicalCast, s) := by
  have hcast : lexicalCast (if valueAt s.db ("eid." ++ sub.dbNamespace) = "" then "0"
      else valueAt s.db ("eid." ++ sub.dbNamespace)) =
        if c < 2 ^ 64 then some (UInt64.ofNat c) else none := by
    rcases h.value with ⟨hempty, rfl⟩ | hvalue
    · rw [show valueAt s.db ("eid." ++ sub.dbNamespace) = "" from hempty]
      decide
    · rw [show valueAt s.db ("eid." ++ sub.dbNamespace) = toIndex c from hvalue,
        if_neg (toIndex_ne_empty c), lexicalCast_toIndex]
  simp only [restoreEid, Prog.run_bind, run_readMembers, hlast, ne_eq, not_true, if_false,
    run_readEvents, hcast]
  by_cases hc : c < 2 ^ 64
  · rw [if_pos hc, if_pos hc]
    have hnat : (UInt64.ofNat c).toNat = c := by
      rw [UInt64.toNat_ofNat']
      exact Nat.mod_eq_of_lt hc
    simp only [Prog.run_bind, run_updateMembers, hnat]
    rfl
  · rw [if_neg hc, if_neg hc]
    rfl

/-! ### One draw -/

/-- The reservation for a namespace in which `n` is the greatest id handed out:
the id in memory is `n` or was forgotten. -/
structure Reserves (ns : String) (s : State) (n : ℕ) : Prop where
  reservation : ∃ c, StoredReservation ns s.db c ∧ n ≤ c ∧ c ≤ n + 9
  memory : s.members.lastEid = 0 ∨ s.members.lastEid = n

/-- Drawing an id after a given one, which is in memory. -/
theorem run_getEventID_after {m : ℕ}
    (hrestore : (restoreEid sub).run s = (.ok (), ⟨s.db, { s.members with lastEid := m }⟩))
    {c : ℕ} (h : StoredReservation sub.dbNamespace s.db c) (hm : m ≤ c) (hc : c ≤ m + 9) :
    ∃ k db', (getEventID sub).run s = (.ok (toIndex k), ⟨db', { s.members with lastEid := k }⟩) ∧
      k = m + 1 ∧ Reserves sub.dbNamespace ⟨db', { s.members with lastEid := k }⟩ k := by
  simp only [getEventID, Prog.run_bind, hrestore, run_readMembers]
  by_cases hten : m % 10 = 0
  · refine ⟨m + 1, Ephemeral.setValue s.db kEvents (eidKey sub.dbNamespace) (toIndex (m + 10)),
      ?_, rfl, ⟨⟨m + 10, .set _ _ (by omega), by omega, by omega⟩, Or.inr rfl⟩⟩
    rw [if_pos hten]
    rfl
  · have hwhole := h.whole
    refine ⟨m + 1, s.db, ?_, rfl, ⟨⟨c, h, by omega, by omega⟩, Or.inr rfl⟩⟩
    rw [if_neg hten]
    rfl

/-- A draw returns an id above all earlier ones, and skips at most nine. -/
theorem Reserves.draw {n : ℕ} (h : Reserves sub.dbNamespace s n) (hfits : n + 9 < 2 ^ 64) :
    ∃ k s', (getEventID sub).run s = (.ok (toIndex k), s') ∧ n < k ∧ k ≤ n + 10 ∧
      Reserves sub.dbNamespace s' k := by
  obtain ⟨⟨c, hstored, hn, hc⟩, hmemory⟩ := h
  by_cases hlast : s.members.lastEid = 0
  · have hrestore := run_restoreEid_stored hstored hlast
    rw [if_pos (hc.trans_lt hfits)] at hrestore
    obtain ⟨k, db', hrun, rfl, hres⟩ :=
      run_getEventID_after hrestore hstored le_rfl (Nat.le_add_right c 9)
    exact ⟨c + 1, _, hrun, by omega, by omega, hres⟩
  · obtain hmemory := hmemory.resolve_left hlast
    have hrestore : (restoreEid sub).run s =
        (.ok (), ⟨s.db, { s.members with lastEid := s.members.lastEid }⟩) := by
      rw [restoreEid, Prog.run_bind, run_readMembers, if_pos hlast]
      rfl
    rw [hmemory] at hrestore
    obtain ⟨k, db', hrun, rfl, hres⟩ := run_getEventID_after hrestore hstored hn hc
    exact ⟨n + 1, _, hrun, by omega, by omega, hres⟩

/-- A new process: the members as they are constructed, over the same database. -/
def State.restart (s : State) : State := ⟨s.db, {}⟩

theorem Reserves.restart {ns : String} {n : ℕ} (h : Reserves ns s n) : Reserves ns s.restart n :=
  ⟨h.reservation, Or.inl rfl⟩

/-! ### Draws and restarts -/

/-- What happens to the ids of a namespace. -/
inductive IdCall
  | getEventID
  | restart
  deriving DecidableEq, Repr

/-- The ids that a sequence of calls returns. -/
def drawnIds (sub : Subscriber) : List IdCall → State → List String
  | [], _ => []
  | .getEventID :: rest, s =>
      ((getEventID sub).run s).1.toOption.toList ++ drawnIds sub rest ((getEventID sub).run s).2
  | .restart :: rest, s => drawnIds sub rest s.restart

/-- Every draw of a run returns an id; all of them are above the greatest id handed out before
it, and increase. -/
theorem Reserves.drawnIds {n : ℕ} (h : Reserves sub.dbNamespace s n) (calls : List IdCall)
    (hfits : n + 10 * calls.length + 9 < 2 ^ 64) :
    ∃ ids : List ℕ, EventSubscribers.drawnIds sub calls s = ids.map toIndex ∧
      ids.length = calls.count .getEventID ∧ (n :: ids).Pairwise (· < ·) := by
  induction calls generalizing s n with
  | nil => exact ⟨[], rfl, rfl, List.pairwise_singleton _ _⟩
  | cons call rest ih =>
      rw [List.length_cons] at hfits
      cases call with
      | getEventID =>
          obtain ⟨k, s', hrun, hk, hle, hres⟩ := h.draw (by omega)
          obtain ⟨ids, hids, hlength, hlt⟩ := ih hres (by omega)
          refine ⟨k :: ids, ?_, ?_, List.pairwise_cons.mpr ⟨?_, hlt⟩⟩
          · rw [EventSubscribers.drawnIds, hrun, hids]
            rfl
          · rw [List.length_cons, hlength, List.count_cons_self]
          · intro m hm
            rcases List.mem_cons.mp hm with rfl | hm
            · exact hk
            · exact hk.trans ((List.pairwise_cons.mp hlt).1 m hm)
      | restart =>
          obtain ⟨ids, hids, hlength, hlt⟩ := ih h.restart (by omega)
          refine ⟨ids, hids, ?_, hlt⟩
          rw [hlength, List.count_cons_of_ne (by decide)]

/-- From a namespace without ids or with a reservation, every draw of a sequence of draws and
restarts returns an id, and the ids increase, also as texts while they have ten digits. The
sequence is one that the numbers of `size_t` suffice for. -/
theorem getEventID_increasing {db : Database} {c : ℕ}
    (h : StoredReservation sub.dbNamespace db c) (calls : List IdCall)
    (hfits : c + 10 * calls.length + 9 < 2 ^ 64) :
    ∃ ids : List ℕ, drawnIds sub calls ⟨db, {}⟩ = ids.map toIndex ∧
      ids.length = calls.count .getEventID ∧ ids.Pairwise (· < ·) ∧
      ∀ m ∈ ids, ∀ n ∈ ids, m < 10 ^ 10 → n < 10 ^ 10 → (toIndex m < toIndex n ↔ m < n) := by
  have hres : Reserves sub.dbNamespace ⟨db, {}⟩ c :=
    ⟨⟨c, h, le_rfl, Nat.le_add_right c 9⟩, Or.inl rfl⟩
  obtain ⟨ids, hids, hlength, hlt⟩ := hres.drawnIds calls hfits
  exact ⟨ids, hids, hlength, (List.pairwise_cons.mp hlt).2, fun m _ n _ hm hn =>
    padded_lt_padded (by decide) hm hn⟩

/-- Two draws with a restart between them, over an empty database. -/
theorem getEventID_increasing_fresh :
    drawnIds ⟨"type", "name", 0, 1⟩ [.getEventID, .restart, .getEventID] ⟨∅, {}⟩ =
        [toIndex 1, toIndex 11] ∧
      ∃ ids : List ℕ, drawnIds ⟨"type", "name", 0, 1⟩ [.getEventID, .restart, .getEventID] ⟨∅, {}⟩ =
          ids.map toIndex ∧ ids.length = 2 ∧ ids.Pairwise (· < ·) ∧
        ∀ m ∈ ids, ∀ n ∈ ids, m < 10 ^ 10 → n < 10 ^ 10 → (toIndex m < toIndex n ↔ m < n) :=
  ⟨by decide +kernel, getEventID_increasing ⟨Or.inl ⟨by decide +kernel, rfl⟩, rfl⟩ _ (by decide)⟩

end Osquery.EventSubscribers
