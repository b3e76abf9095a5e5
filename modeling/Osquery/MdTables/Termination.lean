import Osquery.MdTables.Mdstat

/-!
# When the parser of mdstat ends

When the line of a device is the last one, the parser goes back to the beginning of its loop and
stays at the line forever; and a position of a drive that is no number is an exception that
nothing catches. Every other line is left behind, and no line outside the list is accessed.
-/

namespace Osquery.MdTables.Mdstat

open Foundation.Numeral Foundation.Separated Foundation.Throwing Core.Conversions

/-! ### Positions of drives -/

/-- The text between the first brackets, when they are in order. -/
def position (name : String) : Option String :=
  match find name "[", find name "]" with
  | some start, some stop =>
      if start > stop then none
      else some (String.ofList ((name.toList.drop (start + 1)).take (stop - start - 1)))
  | _, _ => none

/-- The position of the drive begins with a number in the range of an `int`. -/
def Numbered (name : String) : Prop :=
  ∀ text, position name = some text → ∃ pos, stoi text = .ok pos

theorem succeeds_drivePosition_iff (text : String) :
    Succeeds (drivePosition text) ↔ ∃ pos, stoi text = .ok pos := by
  rw [drivePosition]
  cases stoi text with
  | error e => exact iff_of_false (not_succeeds_error _) fun ⟨pos, hpos⟩ => by cases hpos
  | ok pos => exact iff_of_true (succeeds_ok _) ⟨pos, rfl⟩

theorem succeeds_parseMDDrive_iff (name : String) :
    Succeeds (parseMDDrive name) ↔ Numbered name := by
  have hnone : ∀ text : String, none = some text → ∃ pos, stoi text = .ok pos :=
    fun _ h => by cases h
  rw [parseMDDrive, Numbered, position]
  cases hstart : find name "[" with
  | none => exact iff_of_true (succeeds_ok _) hnone
  | some start =>
      cases find name "]" with
      | none => exact iff_of_true (succeeds_ok _) hnone
      | some stop =>
          by_cases horder : start > stop
          · simp only [if_pos horder]
            exact iff_of_true (succeeds_ok _) hnone
          · have hsubstr : substr name (start + 1) (stop - start - 1) = .ok _ :=
              if_pos (find_add_length_le hstart)
            simp only [if_neg horder, hsubstr, ok_bind, Option.some.injEq, forall_eq']
            rw [← succeeds_drivePosition_iff, succeeds_bind_iff]
            exact ⟨fun ⟨pos, hpos, _⟩ => ⟨pos, hpos⟩, fun ⟨pos, hpos⟩ => ⟨pos, hpos, succeeds_ok _⟩⟩

/-! ### Lines -/

/-- The line has a term of a status, with text behind it. -/
def isStatus (line : String) : Bool :=
  statusHandlers.any fun handler => (termEnd line handler.1).isSome

/-- The name and the settings in the line of a device. -/
def device (line : String) : Option (String × String) :=
  if isBlank line = false ∧ firstTwo line = "md" then
    match splitOccurences line ":" 1 with
    | name :: settings :: _ => some (name, settings)
    | _ => none
  else none

/-- The names of the drives, behind the status and the level. -/
def driveNames (settings : String) : List String := ((split settings " ").map trim).drop 2

/-- Every line of a device that is reached has a line behind it, and numbers for the positions of
its drives. -/
inductive Readable : List String → Prop
  | nil : Readable []
  | skip {line : String} {rest : List String} (hline : device line = none)
      (hrest : Readable rest) : Readable (line :: rest)
  | device {line name settings config : String} {rest : List String}
      (hline : device line = some (name, settings))
      (hdrives : ∀ drive ∈ driveNames settings, Numbered drive)
      (hrest : Readable (rest.dropWhile isStatus)) : Readable (line :: config :: rest)

theorem succeeds_readDevice_iff (name settings : String) :
    Succeeds (readDevice name settings) ↔ ∀ drive ∈ driveNames settings, Numbered drive := by
  rw [readDevice, driveNames]
  split
  · next status raidLevel names hpieces =>
      rw [hpieces, List.drop_succ_cons, List.drop_succ_cons, List.drop_zero]
      simp only [← succeeds_parseMDDrive_iff]
      rw [← succeeds_mapM_iff, succeeds_bind_iff]
      exact ⟨fun ⟨drives, hdrives, _⟩ => ⟨drives, hdrives⟩,
        fun ⟨drives, hdrives⟩ => ⟨drives, hdrives, succeeds_ok _⟩⟩
  · next hshort =>
      refine iff_of_true (succeeds_ok _) ?_
      match hpieces : (split settings " ").map trim with
      | [] => simp
      | [_] => simp
      | status :: raidLevel :: names => exact absurd hpieces (hshort status raidLevel names)

section Lines

variable {lines : List String} {n : ℕ} {line : String}

theorem lineAt_of_drop {rest : List String} (h : lines.drop n = line :: rest) :
    lineAt lines n = .ok line := by
  have hget := congrArg (·[0]?) h
  simp only [List.getElem?_drop, Nat.add_zero] at hget
  rw [lineAt, hget]
  rfl

theorem drop_succ_of_drop {rest : List String} (h : lines.drop n = line :: rest) :
    lines.drop (n + 1) = rest := by
  rw [← List.drop_drop, h]
  rfl

theorem termEnd_le {searchTerm : String} {pos : ℕ} (h : termEnd line searchTerm = some pos) :
    pos ≤ line.length := by
  rw [termEnd] at h
  split at h
  · split_ifs at h with hlt
    obtain rfl := Option.some.inj h
    exact hlt.le
  · cases h

/-- A handler runs when its term is in the next line. -/
theorem exists_handleMDStatuses {rest : List String} (h : lines.drop (n + 1) = line :: rest)
    {searchTerm : String} {handleFunc : String → MDDevice → Except Fault MDDevice}
    (hfunc : ∀ line mdd, Succeeds (handleFunc line mdd)) (mdd : MDDevice) :
    ∃ r, handleMDStatuses lines n searchTerm handleFunc mdd = .ok r ∧
      r.isSome = (termEnd line searchTerm).isSome := by
  have hlength := congrArg List.length h
  rw [List.length_drop, List.length_cons] at hlength
  rw [handleMDStatuses, if_neg (by omega), lineAt_of_drop h, ok_bind]
  cases hterm : termEnd line searchTerm with
  | none => exact ⟨none, rfl, rfl⟩
  | some pos =>
      obtain ⟨text, htext⟩ := succeeds_substr (termEnd_le hterm) line.length
      obtain ⟨mdd', hmdd⟩ := hfunc (trim text) mdd
      refine ⟨some mdd', ?_, rfl⟩
      simp only [htext, ok_bind, hmdd]

theorem exists_handleFirst {rest : List String} (h : lines.drop (n + 1) = line :: rest)
    (mdd : MDDevice) {handlers : List (String × (String → MDDevice → Except Fault MDDevice))}
    (hhandlers : ∀ handler ∈ handlers, ∀ line mdd, Succeeds (handler.2 line mdd)) :
    ∃ r, handleFirst lines n mdd handlers = .ok r ∧
      r.isSome = handlers.any fun handler => (termEnd line handler.1).isSome := by
  induction handlers with
  | nil => exact ⟨none, rfl, rfl⟩
  | cons handler handlers ih =>
      obtain ⟨hfunc, hrest⟩ := List.forall_mem_cons.1 hhandlers
      obtain ⟨r, hr, hterm⟩ := exists_handleMDStatuses h hfunc mdd
      rw [handleFirst, hr, ok_bind, List.any_cons, ← hterm]
      cases r with
      | none => exact ih hrest
      | some mdd' => exact ⟨some mdd', rfl, rfl⟩

/-- The loop stays within the lines, and passes all lines of a status. -/
theorem exists_handleLines (hn : n < lines.length) (rounds : ℕ) (mdd : MDDevice) :
    ∃ r, handleLines lines rounds n mdd = .ok r ∧
      (∀ n' mdd', r = some (n', mdd') → n ≤ n' ∧ n' < lines.length ∧
        lines.drop (n' + 1) = (lines.drop (n + 1)).dropWhile isStatus) ∧
      (lines.length < n + rounds → r.isSome) := by
  induction rounds generalizing n mdd with
  | zero =>
      refine ⟨none, rfl, fun _ _ h => (by cases h), fun h => ?_⟩
      omega
  | succ rounds ih =>
      rw [handleLines]
      by_cases hlast : n < lines.length - 1
      · obtain ⟨line, rest, hrest⟩ : ∃ line rest, lines.drop (n + 1) = line :: rest :=
          List.exists_cons_of_length_pos (by rw [List.length_drop]; omega)
        obtain ⟨r, hr, hstatus⟩ := exists_handleFirst hrest mdd succeeds_of_mem_statusHandlers
        change r.isSome = isStatus line at hstatus
        rw [if_pos hlast, hr, ok_bind]
        cases r with
        | none =>
            refine ⟨some (n, mdd), rfl, ?_, fun _ => rfl⟩
            rintro n' mdd' ⟨⟩
            rw [hrest, List.dropWhile_cons_of_neg (by rw [← hstatus]; simp)]
            exact ⟨le_rfl, hn, rfl⟩
        | some mdd' =>
            obtain ⟨r, hr, hnext, hrounds⟩ := @ih (n + 1) (by omega) mdd'
            refine ⟨r, hr, fun n' mdd'' h => ?_, fun h => hrounds (by omega)⟩
            obtain ⟨hle, hlt, hdrop⟩ := hnext n' mdd'' h
            rw [hdrop, drop_succ_of_drop hrest, hrest,
              List.dropWhile_cons_of_pos (by rw [← hstatus]; rfl)]
            exact ⟨by omega, hlt, rfl⟩
      · rw [if_neg hlast]
        refine ⟨some (n, mdd), rfl, ?_, fun _ => rfl⟩
        rintro n' mdd' ⟨⟩
        rw [List.drop_eq_nil_of_le (by omega)]
        exact ⟨le_rfl, hn, rfl⟩

/-! ### Rounds -/

/-- A line that is not one of a device is left with the next line. -/
theorem exists_round_of_none {rest : List String} (h : lines.drop n = line :: rest)
    (hline : device line = none) (rounds : ℕ) (result : MDStat) :
    ∃ result', round lines rounds n result = .ok (some (n + 1, result')) := by
  rw [round, lineAt_of_drop h, ok_bind]
  rw [device] at hline
  cases hblank : isBlank line with
  | true => exact ⟨result, rfl⟩
  | false =>
      rw [if_neg Bool.false_ne_true]
      by_cases hmd : firstTwo line = "md"
      · rw [if_pos ⟨hblank, hmd⟩] at hline
        rw [if_pos hmd]
        rcases hsplit : splitOccurences line ":" 1 with _ | ⟨name, _ | ⟨settings, more⟩⟩
        · exact ⟨result, rfl⟩
        · exact ⟨result, rfl⟩
        · rw [hsplit] at hline
          cases hline
      · rw [if_neg hmd]
        split_ifs with hunused
        · have hlength : "unused devices:".length ≤ line.length := by omega
          obtain ⟨unused, hunused⟩ := succeeds_substr hlength line.length
          rw [hunused]
          exact ⟨_, rfl⟩
        · exact ⟨result, rfl⟩

theorem round_of_some {rest : List String} (h : lines.drop n = line :: rest)
    {name settings : String} (hline : device line = some (name, settings)) (rounds : ℕ)
    (result : MDStat) :
    round lines rounds n result = deviceRound lines rounds n result name settings := by
  rw [round, lineAt_of_drop h, ok_bind]
  rw [device] at hline
  split_ifs at hline with hdevice
  rw [if_neg (by simp [hdevice.1]), if_pos hdevice.2]
  rcases hsplit : splitOccurences line ":" 1 with _ | ⟨name', _ | ⟨settings', more⟩⟩
  all_goals rw [hsplit] at hline
  · cases hline
  · cases hline
  · obtain ⟨rfl, rfl⟩ := Prod.mk.inj (Option.some.inj hline)
    rfl

/-- The line of a device at the end is not left. -/
theorem deviceRound_of_last (h : lines.drop n = [line]) {name settings : String} {rounds : ℕ}
    {result : MDStat} {r : Option (ℕ × MDStat)}
    (hr : deviceRound lines rounds n result name settings = .ok r) : r = some (n, result) := by
  obtain ⟨mdd, -, hrest⟩ := bind_eq_ok_iff.1 hr
  have hlength := congrArg List.length h
  rw [List.length_drop, List.length_singleton] at hlength
  rw [if_pos (by omega)] at hrest
  exact (Except.ok.inj hrest).symm

/-- Elsewhere the round goes on behind the lines of the status. -/
theorem exists_deviceRound {config : String} {rest : List String}
    (h : lines.drop n = line :: config :: rest) {name settings : String}
    (hdrives : ∀ drive ∈ driveNames settings, Numbered drive) (rounds : ℕ) (result : MDStat) :
    ∃ r, deviceRound lines rounds n result name settings = .ok r ∧
      (∀ n' result', r = some (n', result') → n < n' ∧ n' ≤ lines.length ∧
        lines.drop n' = rest.dropWhile isStatus) ∧
      (lines.length ≤ n + rounds → r.isSome) := by
  have hlength := congrArg List.length h
  rw [List.length_drop, List.length_cons, List.length_cons] at hlength
  have hconfig := drop_succ_of_drop h
  have hrest := drop_succ_of_drop hconfig
  obtain ⟨mdd, hmdd⟩ := (succeeds_readDevice_iff name settings).2 hdrives
  obtain ⟨r, hr, hnext, hrounds⟩ :=
    @exists_handleLines lines (n + 1) (by omega) rounds (configure config mdd)
  rw [deviceRound, hmdd, ok_bind, if_neg (by omega), lineAt_of_drop hconfig, ok_bind, hr, ok_bind]
  cases r with
  | none =>
      refine ⟨none, rfl, fun _ _ h => (by cases h), fun h => ?_⟩
      exact absurd (hrounds (by omega)) Bool.false_ne_true
  | some found =>
      obtain ⟨n', mdd'⟩ := found
      obtain ⟨hle, hlt, hdrop⟩ := hnext n' mdd' rfl
      refine ⟨some (n' + 1, _), rfl, ?_, fun _ => rfl⟩
      rintro n'' result'' ⟨⟩
      rw [hdrop, hrest]
      exact ⟨by omega, hlt, rfl⟩

/-! ### The whole loop -/

/-- A run that ends has only lines that can be read before it. -/
theorem readable_of_parseLines {rounds : ℕ} {result stat : MDStat}
    (h : parseLines lines rounds n result = .ok (some stat)) : Readable (lines.drop n) := by
  induction rounds generalizing n result with
  | zero => cases h
  | succ rounds ih =>
      rw [parseLines] at h
      by_cases hn : n < lines.length
      · obtain ⟨line, rest, hrest⟩ : ∃ line rest, lines.drop n = line :: rest :=
          List.exists_cons_of_length_pos (by rw [List.length_drop]; omega)
        rw [if_pos hn] at h
        obtain ⟨r, hr, hgo⟩ := bind_eq_ok_iff.1 h
        cases hline : device line with
        | none =>
            obtain ⟨result', hround⟩ := exists_round_of_none hrest hline rounds result
            rw [hround] at hr
            obtain rfl := Except.ok.inj hr
            have hreadable := ih hgo
            rw [drop_succ_of_drop hrest] at hreadable
            rw [hrest]
            exact Readable.skip hline hreadable
        | some pair =>
            obtain ⟨name, settings⟩ := pair
            rw [round_of_some hrest hline] at hr
            obtain ⟨mdd, hmdd, -⟩ := bind_eq_ok_iff.1 hr
            have hdrives := (succeeds_readDevice_iff name settings).1 ⟨mdd, hmdd⟩
            cases rest with
            | nil =>
                -- The same line is read again, and the rest of the run needs it to be readable.
                obtain rfl := deviceRound_of_last hrest hr
                exact ih hgo
            | cons config rest =>
                obtain ⟨r', hr', hnext, -⟩ := exists_deviceRound hrest hdrives rounds result
                rw [hr'] at hr
                obtain rfl := Except.ok.inj hr
                cases r' with
                | none => cases hgo
                | some found =>
                    obtain ⟨-, -, hdrop⟩ := hnext found.1 found.2 rfl
                    have hreadable := ih hgo
                    rw [hdrop] at hreadable
                    rw [hrest]
                    exact Readable.device hline hdrives hreadable
      · rw [List.drop_eq_nil_of_le (Nat.le_of_not_lt hn)]
        exact Readable.nil

/-- Lines that can be read are read to the end. -/
theorem exists_parseLines {rest : List String} (h : Readable rest) (hrest : lines.drop n = rest)
    (hn : n ≤ lines.length) {rounds : ℕ} (hrounds : lines.length < n + rounds) (result : MDStat) :
    ∃ stat, parseLines lines rounds n result = .ok (some stat) := by
  induction h generalizing n rounds result with
  | nil =>
      obtain ⟨rounds, rfl⟩ := Nat.exists_eq_add_one_of_ne_zero (by omega : rounds ≠ 0)
      rw [parseLines, if_neg (Nat.not_lt.2 (List.drop_eq_nil_iff.1 hrest))]
      exact ⟨result, rfl⟩
  | @skip line rest hline _ ih =>
      have hlength := congrArg List.length hrest
      rw [List.length_drop, List.length_cons] at hlength
      obtain ⟨rounds, rfl⟩ := Nat.exists_eq_add_one_of_ne_zero (by omega : rounds ≠ 0)
      obtain ⟨result', hround⟩ := exists_round_of_none hrest hline rounds result
      rw [parseLines, if_pos (by omega), hround]
      exact ih (drop_succ_of_drop hrest) (by omega) (by omega) result'
  | @device line name settings config rest hline hdrives _ ih =>
      have hlength := congrArg List.length hrest
      rw [List.length_drop, List.length_cons] at hlength
      obtain ⟨rounds, rfl⟩ := Nat.exists_eq_add_one_of_ne_zero (by omega : rounds ≠ 0)
      obtain ⟨r, hr, hnext, hsome⟩ := exists_deviceRound hrest hdrives rounds result
      rw [parseLines, if_pos (by omega), round_of_some hrest hline, hr]
      cases r with
      | none => exact absurd (hsome (by omega)) Bool.false_ne_true
      | some found =>
          obtain ⟨hlt, hle, hdrop⟩ := hnext found.1 found.2 rfl
          exact ih hdrop hle (by omega) found.2

theorem exists_parseLines_iff (hn : n ≤ lines.length) (result : MDStat) :
    (∃ rounds stat, parseLines lines rounds n result = .ok (some stat)) ↔
      Readable (lines.drop n) :=
  ⟨fun ⟨_, _, h⟩ => readable_of_parseLines h,
    fun h => ⟨lines.length + 1, exists_parseLines h rfl hn (by omega) result⟩⟩

end Lines

/-- The first line that the loop reads. -/
def firstLine (lines : List String) : ℕ :=
  match lines with
  | [] => 0
  | first :: _ => if (find first "Personalities :").isSome then 1 else 0

/-- The parser ends, without a line that is not there and without an exception, exactly when the
lines of the devices it reaches can be read. -/
theorem parseMDStat_ends_iff (lines : List String) (result : MDStat) :
    (∃ rounds stat, parseMDStat lines rounds result = .ok (some stat)) ↔
      Readable (lines.drop (firstLine lines)) := by
  cases lines with
  | nil => exact iff_of_true ⟨0, result, rfl⟩ Readable.nil
  | cons first rest =>
      simp only [parseMDStat, firstLine]
      split_ifs with hfirst
      · obtain ⟨pos, hpos⟩ := Option.isSome_iff_exists.1 hfirst
        have hlength : "Personalities :".length ≤ first.length :=
          (Nat.le_add_left _ pos).trans (find_add_length_le hpos)
        obtain ⟨pline, hpline⟩ := succeeds_substr hlength first.length
        obtain ⟨personalities, hpersonalities⟩ :=
          succeeds_parseMDPersonalities pline result.personalities
        simp only [hpline, ok_bind, hpersonalities]
        exact exists_parseLines_iff (Nat.le_add_left 1 _) _
      · exact exists_parseLines_iff (Nat.zero_le _) result

/-- A device in the last line keeps the parser there, and a position that is no number is
thrown. -/
theorem device_at_the_end :
    (¬ ∃ rounds stat,
      parseMDStat ["Personalities : [raid1]", "md0 : active raid1 sda1[0]"] rounds {} =
        .ok (some stat)) ∧
    parseMDStat ["Personalities : [raid1]", "md0 : active raid1 sda1[x]", "", ""] 9 {} =
      .error (.stoi .invalidArgument) := by
  constructor
  · rintro ⟨rounds, stat, h⟩
    have hlines : parseLines ["Personalities : [raid1]", "md0 : active raid1 sda1[0]"] rounds 1
        { personalities := ["raid1"] } = .ok (some stat) := h
    cases readable_of_parseLines hlines with
    | skip hline hrest => exact absurd hline (by decide)
  · decide

end Osquery.MdTables.Mdstat
