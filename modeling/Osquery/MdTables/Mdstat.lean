import Osquery.Core.Conversions
import Osquery.Foundation.TextSearch
import Osquery.Foundation.Throwing

/-!
# The lines of mdstat

The parser reads the personalities from the first line, and then line after line. The line of a
device is followed by one with its configuration and by lines about its status, which are
skipped.

## Implementation notes

A run has a number of rounds for its loops; no result stands for a run that needs more of them.
Whatever the code can throw, and a line outside the list, is a fault. The pieces of a line are
accessed only where their number was checked, so a default stands for the pieces that are not
there.
-/

namespace Osquery.MdTables.Mdstat

open Foundation.Numeral Foundation.Separated Foundation.Throwing Core.Conversions

/-! ### Data -/

structure MDDrive where
  name : String
  pos : UInt64 := 0
  deriving DecidableEq, Repr

structure MDAction where
  progress : String := ""
  finish : String := ""
  speed : String := ""
  deriving DecidableEq, Repr

structure MDBitmap where
  onMem : String := ""
  chunkSize : String := ""
  externalFile : String := ""
  deriving DecidableEq, Repr

structure MDDevice where
  name : String := ""
  status : String := ""
  raidLevel : String := ""
  usableSize : ℤ := 0
  other : String := ""
  drives : List MDDrive := []
  healthyDrives : String := ""
  driveStatuses : String := ""
  recovery : MDAction := {}
  resync : MDAction := {}
  reshape : MDAction := {}
  checkArray : MDAction := {}
  bitmap : MDBitmap := {}
  deriving DecidableEq, Repr

structure MDStat where
  personalities : List String := []
  devices : List MDDevice := []
  unused : String := ""
  deriving DecidableEq, Repr

inductive Fault
  /-- A line that is not in the list. -/
  | line (i : ℕ)
  /-- `std::out_of_range` of `substr`. -/
  | substr
  /-- What `std::stoi` throws. -/
  | stoi (error : ConversionError)
  deriving DecidableEq, Repr

/-! ### Texts -/

def find (s pattern : String) : Option ℕ := Foundation.TextSearch.find pattern.toList s.toList

def findFirstNotOf (s chars : String) : Option ℕ :=
  s.toList.findIdx? fun c => !chars.toList.contains c

def substr (s : String) (pos count : ℕ) : Except Fault String :=
  if pos ≤ s.length then .ok (String.ofList ((s.toList.drop pos).take count)) else .error .substr

/-! ### Pieces of lines -/

def parseMDPersonalities (line : String) (result : List String) : Except Fault (List String) :=
  (split line " ").foldlM (fun result p =>
    let p := trim p
    if p.length > 2 then do
      let name ← substr p 1 (p.length - 2)
      .ok (result ++ [name])
    else .ok result) result

/-- The part of a piece from the first character on that is none of the given ones. -/
def fromFirstNotOf (piece chars : String) : Except Fault String :=
  match findFirstNotOf piece chars with
  | some start => substr piece start piece.length
  | none => .ok piece

def parseMDAction (line : String) (result : MDAction) : Except Fault MDAction :=
  match (split line " ").map trim with
  | [done, blocks, finish, speed] => do
      let finish ← fromFirstNotOf finish "finish="
      let speed ← fromFirstNotOf speed "speed="
      .ok ⟨done ++ " " ++ blocks, finish, speed⟩
  | _ => .ok result

def parseMDBitmap (line : String) (result : MDBitmap) : Except Fault MDBitmap :=
  match (split line ",").map trim with
  | onMem :: chunkSize :: more =>
      match more.head?.bind fun info => (find info "file:").map (info, ·) with
      | some (info, pos) => do
          let externalFile ← substr info (pos + "file:".length) info.length
          .ok ⟨onMem, chunkSize, trim externalFile⟩
      | none => .ok ⟨onMem, chunkSize, result.externalFile⟩
  | _ => .ok result

/-- `std::stoi`, and the conversion to a `size_t`. -/
def drivePosition (text : String) : Except Fault UInt64 :=
  match stoi text with
  | .ok pos => .ok (UInt64.ofInt pos)
  | .error e => .error (.stoi e)

def parseMDDrive (name : String) : Except Fault MDDrive :=
  match find name "[", find name "]" with
  | some start, some stop =>
      if start > stop then .ok { name := name }
      else do
        let text ← substr name (start + 1) (stop - start - 1)
        let pos ← drivePosition text
        .ok ⟨name, pos⟩
  | _, _ => .ok { name := name }

/-! ### Status lines -/

section Lines

variable (lines : List String)

def lineAt (i : ℕ) : Except Fault String :=
  match lines[i]? with
  | some line => .ok line
  | none => .error (.line i)

/-- The term is in the line, with text behind it. -/
def termEnd (line searchTerm : String) : Option ℕ :=
  match find line searchTerm with
  | some pos =>
      if line.length > pos + searchTerm.length then some (pos + searchTerm.length) else none
  | none => none

/-- The device with the line after the current one, if that has the term. -/
def handleMDStatuses (n : ℕ) (searchTerm : String)
    (handleFunc : String → MDDevice → Except Fault MDDevice) (mdd : MDDevice) :
    Except Fault (Option MDDevice) :=
  if n + 2 > lines.length then .ok none
  else do
    let l ← lineAt lines (n + 1)
    match termEnd l searchTerm with
    | some pos => do
        let line ← substr l pos l.length
        let mdd ← handleFunc (trim line) mdd
        .ok (some mdd)
    | none => .ok none

/-- The terms, in the order in which they are tried, and what is done with their lines. -/
def statusHandlers : List (String × (String → MDDevice → Except Fault MDDevice)) :=
  [("recovery =", fun line mdd => do
      let recovery ← parseMDAction line mdd.recovery
      .ok { mdd with recovery }),
   ("resync =", fun line mdd => do
      let resync ← parseMDAction line mdd.resync
      .ok { mdd with resync }),
   ("resync=", fun line mdd => .ok { mdd with resync := { mdd.resync with progress := line } }),
   ("reshape =", fun line mdd => do
      let reshape ← parseMDAction line mdd.reshape
      .ok { mdd with reshape }),
   ("check =", fun line mdd => do
      let checkArray ← parseMDAction line mdd.checkArray
      .ok { mdd with checkArray }),
   ("bitmap:", fun line mdd => do
      let bitmap ← parseMDBitmap line mdd.bitmap
      .ok { mdd with bitmap })]

/-- The first handler that finds its term. -/
def handleFirst (n : ℕ) (mdd : MDDevice) :
    List (String × (String → MDDevice → Except Fault MDDevice)) → Except Fault (Option MDDevice)
  | [] => .ok none
  | (searchTerm, handleFunc) :: handlers => do
      match ← handleMDStatuses lines n searchTerm handleFunc mdd with
      | some mdd => .ok (some mdd)
      | none => handleFirst n mdd handlers

/-- The loop over the status lines; it ends at the last line before the next device. -/
def handleLines : ℕ → ℕ → MDDevice → Except Fault (Option (ℕ × MDDevice))
  | 0, _, _ => .ok none
  | rounds + 1, n, mdd =>
      if n < lines.length - 1 then do
        match ← handleFirst lines n mdd statusHandlers with
        | some mdd => handleLines rounds (n + 1) mdd
        | none => .ok (some (n, mdd))
      else .ok (some (n, mdd))

/-! ### Device lines -/

/-- The name, the status, the level and the drives. -/
def readDevice (name settings : String) : Except Fault MDDevice :=
  let mdd : MDDevice := { name := trim name }
  match (split settings " ").map trim with
  | status :: raidLevel :: names => do
      let drives ← names.mapM parseMDDrive
      .ok { mdd with status, raidLevel, drives }
  | _ => .ok mdd

/-- What the line after the one of the device adds to it. -/
def configure (config : String) (mdd : MDDevice) : MDDevice :=
  let configline := (split config "\t ").map trim
  if configline.length < 4 then mdd
  else
    let usableSize :=
      if configline.getD 1 "" = "blocks" then
        match stoll (configline.getD 0 "") with
        | .ok size => size
        | .error _ => mdd.usableSize
      else mdd.usableSize
    let other := ((configline.drop 2).take (configline.length - 4)).foldl
      (fun other piece => trim (other ++ " " ++ piece)) mdd.other
    { mdd with
      usableSize, other
      healthyDrives := configline.getD (configline.length - 2) ""
      driveStatuses := configline.getD (configline.length - 1) "" }

/-- Only white space, or too short for a keyword. -/
def isBlank (line : String) : Bool :=
  (findFirstNotOf line "\t\r\x0b ").isNone || line.length < 2

def firstTwo (line : String) : String := String.ofList (line.toList.take 2)

/-- The round of a line of a device: the next line, and the results with the device. -/
def deviceRound (rounds n : ℕ) (result : MDStat) (name settings : String) :
    Except Fault (Option (ℕ × MDStat)) := do
  let mdd ← readDevice name settings
  -- At the end of the file there is no step to the next line.
  if n ≥ lines.length - 1 then .ok (some (n, result))
  else do
    let config ← lineAt lines (n + 1)
    match ← handleLines lines rounds (n + 1) (configure config mdd) with
    | some (n, mdd) => .ok (some (n + 1, { result with devices := result.devices ++ [mdd] }))
    | none => .ok none

/-- One round of the loop: the next line, and what was read. -/
def round (rounds n : ℕ) (result : MDStat) : Except Fault (Option (ℕ × MDStat)) := do
  let line ← lineAt lines n
  if isBlank line then .ok (some (n + 1, result))
  else if firstTwo line = "md" then
    match splitOccurences line ":" 1 with
    | name :: settings :: _ => deviceRound lines rounds n result name settings
    | _ => .ok (some (n + 1, result))
  else if firstTwo line = "un" ∧ line.length > "unused devices:".length + 1 then do
    let unused ← substr line "unused devices:".length line.length
    .ok (some (n + 1, { result with unused := trim unused }))
  else .ok (some (n + 1, result))

/-- The loop over the lines. -/
def parseLines : ℕ → ℕ → MDStat → Except Fault (Option MDStat)
  | 0, _, _ => .ok none
  | rounds + 1, n, result =>
      if n < lines.length then do
        match ← round lines rounds n result with
        | some (n, result) => parseLines rounds n result
        | none => .ok none
      else .ok (some result)

def parseMDStat (rounds : ℕ) (result : MDStat) : Except Fault (Option MDStat) :=
  match lines with
  | [] => .ok (some result)
  | first :: _ =>
      if (find first "Personalities :").isSome then do
        let pline ← substr first "Personalities :".length first.length
        let personalities ← parseMDPersonalities pline result.personalities
        parseLines lines rounds 1 { result with personalities }
      else parseLines lines rounds 0 result

end Lines

/-! ### What cannot throw -/

theorem succeeds_substr {s : String} {pos : ℕ} (h : pos ≤ s.length) (count : ℕ) :
    Succeeds (substr s pos count) := ⟨_, if_pos h⟩

theorem find_add_length_le {s pattern : String} {pos : ℕ} (h : find s pattern = some pos) :
    pos + pattern.length ≤ s.length := by
  have hle := Foundation.TextSearch.find_add_length_le h
  rwa [String.length_toList, String.length_toList] at hle

theorem succeeds_fromFirstNotOf (piece chars : String) :
    Succeeds (fromFirstNotOf piece chars) := by
  rw [fromFirstNotOf]
  cases hstart : findFirstNotOf piece chars with
  | none => exact succeeds_ok piece
  | some start =>
      obtain ⟨hlt, -⟩ := List.findIdx?_eq_some_iff_getElem.1 hstart
      rw [String.length_toList] at hlt
      exact succeeds_substr hlt.le _

theorem succeeds_parseMDPersonalities (line : String) (result : List String) :
    Succeeds (parseMDPersonalities line result) := by
  refine succeeds_foldlM (fun names p => ?_) _ result
  by_cases hlong : (trim p).length > 2
  · rw [if_pos hlong]
    exact succeeds_bind (succeeds_substr (by omega) _) fun name => succeeds_ok _
  · rw [if_neg hlong]
    exact succeeds_ok names

theorem succeeds_parseMDAction (line : String) (result : MDAction) :
    Succeeds (parseMDAction line result) := by
  rw [parseMDAction]
  split
  · exact succeeds_bind (succeeds_fromFirstNotOf _ _) fun finish =>
      succeeds_bind (succeeds_fromFirstNotOf _ _) fun speed => succeeds_ok _
  · exact succeeds_ok result

theorem succeeds_parseMDBitmap (line : String) (result : MDBitmap) :
    Succeeds (parseMDBitmap line result) := by
  rw [parseMDBitmap]
  split
  · split
    · next info pos hfound =>
        obtain ⟨info', -, hpos⟩ := Option.bind_eq_some_iff.1 hfound
        obtain ⟨pos', hfind, hpair⟩ := Option.map_eq_some_iff.1 hpos
        obtain ⟨rfl, rfl⟩ := Prod.mk.inj hpair
        exact succeeds_bind (succeeds_substr (find_add_length_le hfind) _) fun file =>
          succeeds_ok _
    · exact succeeds_ok _
  · exact succeeds_ok result

theorem succeeds_of_mem_statusHandlers :
    ∀ handler ∈ statusHandlers, ∀ line mdd, Succeeds (handler.2 line mdd) := by
  simp only [statusHandlers, List.forall_mem_cons, List.not_mem_nil, false_imp_iff, implies_true,
    and_true]
  exact ⟨fun line mdd => succeeds_bind (succeeds_parseMDAction line _) fun _ => succeeds_ok _,
    fun line mdd => succeeds_bind (succeeds_parseMDAction line _) fun _ => succeeds_ok _,
    fun line mdd => succeeds_ok _,
    fun line mdd => succeeds_bind (succeeds_parseMDAction line _) fun _ => succeeds_ok _,
    fun line mdd => succeeds_bind (succeeds_parseMDAction line _) fun _ => succeeds_ok _,
    fun line mdd => succeeds_bind (succeeds_parseMDBitmap line _) fun _ => succeeds_ok _⟩

end Osquery.MdTables.Mdstat
