import Mathlib.Data.List.GetD
import Osquery.AuditTables.ProcessEvents
import Osquery.EventPublishers.AuditParsing
import Osquery.Foundation.Hexadecimal

/-!
# Command lines

The kernel names the arguments of a started process `a0`, `a1` and so on, and the table
joins them in the order of these names as texts, where `a10` comes before `a2`. The command
line is the one that was run whenever there are at most ten arguments, and otherwise when
the other order gives the same text by coincidence.

## Implementation notes

Arguments are lists of bytes, and the text of a list of bytes has the characters that stand
for them.
-/

namespace Osquery.AuditTables

open EventPublishers Foundation.Numeral Foundation.Separated Foundation.Hexadecimal
open Foundation.TextSearch Core.Rows

/-! ### The record of the arguments -/

/-- The bytes that the kernel prints as they are: all printable ones but the space and the
double quote. -/
def isPlain (b : UInt8) : Bool := 33 ≤ b && b ≤ 126 && b != 34

/-- A value is quoted when all its bytes are plain, and hexadecimal otherwise. -/
def renderValue (arg : List UInt8) : String :=
  if arg.all isPlain then String.ofList ('"' :: ((bytesText arg).toList ++ ['"']))
  else String.ofList (hexText arg)

theorem quote_not_mem_of_plain {arg : List UInt8} (h : arg.all isPlain = true) :
    '"' ∉ (bytesText arg).toList := by
  rw [toList_bytesText, List.mem_map]
  rintro ⟨b, hb, hquote⟩
  have hplain := List.all_eq_true.mp h b hb
  have hb : b = 34 := by
    apply UInt8.toNat_inj.mp
    rw [← toNat_ofNat_of_lt b.toNat b.toNat_lt, hquote]
    rfl
  rw [hb] at hplain
  cases hplain

theorem hexDigit_bare : ∀ n < 16, hexDigit n ≠ ' ' ∧ hexDigit n ≠ '"' := by
  decide

theorem renderValue_ok (arg : List UInt8) :
    Bare (renderValue arg) ∨ Enclosed (renderValue arg) := by
  rw [renderValue]
  split
  · next hplain =>
      right
      exact ⟨_, String.toList_ofList, quote_not_mem_of_plain hplain⟩
  · left
    intro c hc
    rw [String.toList_ofList] at hc
    obtain ⟨n, hn, rfl⟩ := exists_of_mem_hexText hc
    exact hexDigit_bare n hn

/-- A rendered argument is decoded. -/
theorem decode_renderValue {unhex : String → Option String} (hunhex : UnhexLaws unhex)
    {arg : List UInt8} (harg : arg ≠ []) :
    decodeAuditPathValues unhex (renderValue arg) = bytesText arg := by
  obtain ⟨b, rest, rfl⟩ := List.exists_cons_of_ne_nil harg
  rw [renderValue]
  split
  · rw [toList_bytesText, decodeAuditPathValues, String.toList_ofList, List.map_cons,
      List.cons_append]
    change String.ofList (_ :: (_ ++ ['"'])).dropLast = _
    rw [← List.cons_append, List.dropLast_concat]
    rfl
  · rw [decodeAuditPathValues, String.toList_ofList, hunhex.decode]
    split
    · next hquote =>
        have hb := b.toNat_lt
        rw [hexText_cons] at hquote
        exact absurd (List.cons.inj hquote).1 (hexDigit_bare _ (by omega)).2
    · rfl

theorem digit_bare {n : ℕ} {c : Char} (hc : c ∈ (toText n).toList) :
    c ≠ ' ' ∧ c ≠ '=' ∧ c ≠ '"' := by
  have hdigit := isDigit_of_mem_toText hc
  refine ⟨?_, ?_, ?_⟩
  all_goals
    rintro rfl
    cases hdigit

theorem argc_key_ok : ∀ c ∈ "argc".toList, c ≠ ' ' ∧ c ≠ '=' :=
  forall_mem_of_all (by decide)

def argField (args : List (List UInt8)) (i : ℕ) : AuditField where
  key := "a" ++ toText i
  value := renderValue (args.getD i [])
  key_ok := by
    intro c hc
    rw [String.toList_append, List.mem_append] at hc
    obtain hc | hc := hc
    · obtain rfl := List.mem_singleton.mp hc
      decide
    · exact (digit_bare hc).imp_right And.left
  value_ok := renderValue_ok _

def argcField (n : ℕ) : AuditField where
  key := "argc"
  value := toText n
  key_ok := argc_key_ok
  value_ok := Or.inl fun _ hc => (digit_bare hc).imp_right And.right

/-- The fields of the record of some arguments. -/
def execveFields (args : List (List UInt8)) : List AuditField :=
  argcField args.length :: (List.range args.length).map (argField args)

/-- Fields with a space between each two. -/
def spaced : List AuditField → List Char
  | [] => []
  | [field] => field.text
  | field :: next :: rest => field.text ++ ' ' :: spaced (next :: rest)

theorem rendered_spaced : ∀ fields, Rendered fields (spaced fields)
  | [] => .nil
  | [field] => .last field
  | field :: next :: rest => .cons field (rendered_spaced (next :: rest))

/-! ### The order of the keys -/

/-- The positions of the arguments in the order of their decimal texts. -/
def keyOrder (n : ℕ) : List ℕ := (List.range n).insertionSort fun i j => toText i ≤ toText j

theorem mem_keyOrder {n i : ℕ} : i ∈ keyOrder n ↔ i < n := by
  rw [keyOrder, List.mem_insertionSort, List.mem_range]

theorem pairwise_keyOrder (n : ℕ) : (keyOrder n).Pairwise fun i j => toText i < toText j := by
  have hle : (keyOrder n).Pairwise fun i j => toText i ≤ toText j := by
    have : Std.Total fun i j : ℕ => toText i ≤ toText j := ⟨fun i j => le_total _ _⟩
    have : IsTrans ℕ fun i j : ℕ => toText i ≤ toText j := ⟨fun _ _ _ => le_trans⟩
    exact List.pairwise_insertionSort _ _
  have hnodup : (keyOrder n).Nodup :=
    (List.perm_insertionSort _ _).nodup_iff.mpr List.nodup_range
  exact hle.imp₂ (fun i j hij hne => lt_of_le_of_ne hij (toText_inj.not.mpr hne)) hnodup

theorem keyOrder_of_le_ten {n : ℕ} (h : n ≤ 10) : keyOrder n = List.range n := by
  have hdigits : ∀ i < 10, ∀ j < 10, i < j → toText i ≤ toText j := by
    decide +kernel
  apply List.Pairwise.insertionSort_eq
  apply List.pairwise_lt_range.imp_of_mem
  intro i j hi hj hij
  rw [List.mem_range] at hi hj
  exact hdigits i (by omega) j (by omega) hij

theorem argKey_lt {i j : ℕ} (h : toText i < toText j) : "a" ++ toText i < "a" ++ toText j := by
  rw [String.lt_iff_toList_lt, String.toList_append, String.toList_append]
  exact List.cons_lt_cons_iff.mpr (Or.inr ⟨rfl, String.lt_iff_toList_lt.mp h⟩)

theorem argKey_lt_argc (i : ℕ) : "a" ++ toText i < "argc" := by
  obtain ⟨c, rest, hi⟩ := List.exists_cons_of_ne_nil (toText_ne_nil i)
  have hdigit : c.isDigit = true :=
    isDigit_of_mem_toText (n := i) (by rw [hi]; exact List.mem_cons_self)
  rw [String.lt_iff_toList_lt, String.toList_append, hi]
  refine List.cons_lt_cons_iff.mpr (Or.inr ⟨rfl, List.cons_lt_cons_iff.mpr (Or.inl ?_)⟩)
  rw [Char.isDigit, Bool.and_eq_true, decide_eq_true_eq, decide_eq_true_eq] at hdigit
  exact lt_of_le_of_lt (Char.le_def.mpr hdigit.2) (by decide)

/-- Fields in the order of their keys are the list of a map that has just them. -/
theorem toList_eq_of_sorted {fields : Std.ExtTreeMap String String}
    {entries : List (String × String)} (hsorted : entries.Pairwise fun a b => a.1 < b.1)
    (hentries : ∀ key value, fields[key]? = some value ↔ (key, value) ∈ entries) :
    fields.toList = entries := by
  have : Std.Irrefl fun a b : String × String => a.1 < b.1 := ⟨fun a => lt_irrefl a.1⟩
  have : Std.Antisymm fun a b : String × String => a.1 < b.1 :=
    ⟨fun a b hab hba => absurd hba (lt_asymm hab)⟩
  have hordered : fields.toList.Pairwise fun a b => a.1 < b.1 := by
    apply Std.ExtTreeMap.ordered_keys_toList.imp
    intro a b hab
    exact compare_lt_iff_lt.mp hab
  apply hordered.eq_of_mem_iff hsorted
  rintro ⟨key, value⟩
  rw [Std.ExtTreeMap.mem_toList_iff_getElem?_eq_some, hentries]

/-! ### The command line -/

def execveEntries (args : List (List UInt8)) : List (String × String) :=
  (keyOrder args.length).map (fun i => ("a" ++ toText i, renderValue (args.getD i []))) ++
    [("argc", toText args.length)]

theorem pairwise_execveEntries (args : List (List UInt8)) :
    (execveEntries args).Pairwise fun a b => a.1 < b.1 := by
  rw [execveEntries, List.pairwise_append]
  refine ⟨?_, List.pairwise_singleton _ _, ?_⟩
  · exact List.pairwise_map.mpr ((pairwise_keyOrder _).imp argKey_lt)
  · intro entry hentry last hlast
    obtain ⟨i, _, rfl⟩ := List.mem_map.mp hentry
    obtain rfl := List.mem_singleton.mp hlast
    exact argKey_lt_argc i

theorem argKey_inj {i j : ℕ} : "a" ++ toText i = "a" ++ toText j ↔ i = j := by
  rw [← String.toList_inj, String.toList_append, String.toList_append, List.append_cancel_left_eq,
    String.toList_inj, toText_inj]

/-- The map of the parsed fields has the entries of the arguments. -/
theorem getElem?_execveFields (args : List (List UInt8)) (key value : String) :
    (collectFields (execveFields args) ∅)[key]? = some value ↔
      (key, value) ∈ execveEntries args := by
  have hnodup : ((execveFields args).map AuditField.key).Nodup := by
    rw [execveFields, List.map_cons, List.map_map, List.nodup_cons]
    constructor
    · rw [List.mem_map]
      rintro ⟨i, _, hi⟩
      exact absurd hi (argKey_lt_argc i).ne
    · exact List.nodup_range.map fun i j hij => argKey_inj.mp hij
  have hnonempty : ∀ field ∈ execveFields args, field.key ≠ "" := by
    intro field hfield
    obtain rfl | hfield := List.mem_cons.mp hfield
    · exact (by decide : "argc" ≠ "")
    · obtain ⟨i, _, rfl⟩ := List.mem_map.mp hfield
      simp [argField]
  rw [getElem?_collectFields_of_nodup hnodup hnonempty, execveFields, execveEntries,
    List.mem_append, List.mem_map, List.mem_singleton]
  constructor
  · rintro ⟨field, hfield, rfl, rfl⟩
    obtain rfl | hfield := List.mem_cons.mp hfield
    · exact Or.inr rfl
    · obtain ⟨i, hi, rfl⟩ := List.mem_map.mp hfield
      exact Or.inl ⟨i, mem_keyOrder.mpr (List.mem_range.mp hi), rfl⟩
  · rintro (⟨i, hi, hentry⟩ | hentry)
    · obtain ⟨rfl, rfl⟩ := Prod.mk.inj hentry
      refine ⟨argField args i, List.mem_cons_of_mem _ ?_, rfl, rfl⟩
      exact List.mem_map_of_mem (List.mem_range.mpr (mem_keyOrder.mp hi))
    · obtain ⟨rfl, rfl⟩ := Prod.mk.inj hentry
      exact ⟨argcField args.length, List.mem_cons_self, rfl, rfl⟩

/-- The arguments joined in the order of their keys. -/
def lineInKeyOrder (args : List (List UInt8)) : String :=
  join ((keyOrder args.length).map fun i => bytesText (args.getD i [])) " "

/-- The command line that was run. -/
def lineOf (args : List (List UInt8)) : String := join (args.map bytesText) " "

section Subscriber

variable {unhex : String → Option String}

/-- Texts that are not empty are joined. -/
theorem foldl_amalgamate {entries : List (String × String)}
    (hkeys : ∀ entry ∈ entries, entry.1 ≠ "argc")
    (hvalues : ∀ entry ∈ entries, decodeAuditPathValues unhex entry.2 ≠ "") :
    entries.foldl (amalgamate unhex) "" =
      join (entries.map fun entry => decodeAuditPathValues unhex entry.2) " " := by
  induction entries using List.reverseRecOn with
  | nil => simp
  | append_singleton entries entry ih =>
      have hrest := ih (fun e he => hkeys e (List.mem_append_left _ he))
        fun e he => hvalues e (List.mem_append_left _ he)
      have hkey : entry.1 ≠ "argc" := hkeys entry (by simp)
      rw [List.foldl_append, hrest, List.foldl_cons, List.foldl_nil, amalgamate, if_neg hkey,
        List.map_append, List.map_singleton]
      have hnonempty : ∀ text ∈ entries.map fun entry => decodeAuditPathValues unhex entry.2,
          text ≠ "" := by
        intro text htext
        obtain ⟨e, he, rfl⟩ := List.mem_map.mp htext
        exact hvalues e (List.mem_append_left _ he)
      by_cases hentries : entries = []
      · subst hentries
        simp [join]
      · have hmap : (entries.map fun entry => decodeAuditPathValues unhex entry.2) ≠ [] := by
          simpa using hentries
        rw [if_pos ((join_eq_empty_iff hnonempty).not.mpr hmap), join_concat hmap]

/-- The parsed fields give the arguments in the order of their keys. -/
theorem commandLine_execveFields (hunhex : UnhexLaws unhex) {args : List (List UInt8)}
    (hargs : ∀ arg ∈ args, arg ≠ []) :
    commandLine unhex (collectFields (execveFields args) ∅) = lineInKeyOrder args := by
  have hlist := toList_eq_of_sorted (pairwise_execveEntries args) (getElem?_execveFields args)
  have harg : ∀ i ∈ keyOrder args.length, args.getD i [] ≠ [] := by
    intro i hi
    have hlength := mem_keyOrder.mp hi
    rw [List.getD_eq_getElem _ _ hlength]
    exact hargs _ (List.getElem_mem hlength)
  have hdecoded : ∀ i ∈ keyOrder args.length,
      decodeAuditPathValues unhex (renderValue (args.getD i [])) = bytesText (args.getD i []) :=
    fun i hi => decode_renderValue hunhex (harg i hi)
  rw [commandLine, hlist, execveEntries, List.foldl_append, foldl_amalgamate, lineInKeyOrder]
  · simp only [List.foldl_cons, List.foldl_nil, amalgamate, if_true, List.map_map]
    exact congrArg (fun texts => join texts " ") (List.map_congr_left hdecoded)
  · intro entry hentry
    obtain ⟨i, _, rfl⟩ := List.mem_map.mp hentry
    exact (argKey_lt_argc i).ne
  · intro entry hentry
    obtain ⟨i, hi, rfl⟩ := List.mem_map.mp hentry
    rw [hdecoded i hi]
    simpa using harg i hi

theorem lineInKeyOrder_of_le_ten {args : List (List UInt8)} (h : args.length ≤ 10) :
    lineInKeyOrder args = lineOf args := by
  rw [lineInKeyOrder, keyOrder_of_le_ten h, lineOf]
  apply congrArg fun texts => join texts " "
  apply List.ext_getElem
  · simp
  · intro i hi _
    rw [List.length_map, List.length_range] at hi
    rw [List.getElem_map, List.getElem_map, List.getElem_range, List.getD_eq_getElem _ _ hi]

/-- The record of some arguments is parsed into a record whose events have the arguments in
the order of their keys. -/
theorem cmdline_in_key_order {part : List Char → UInt64 → UInt64 → Option (List Char)}
    (hpart : PartLaws part) (hunhex : UnhexLaws unhex) {file : String → QueryData}
    (hfile : HasTimes file) (uptime : String) {args : List (List UInt8)}
    (hargs : ∀ arg ∈ args, arg ≠ []) {reply : AuditReply} {header : AuditHeader}
    (htype : reply.type = AUDIT_EXECVE)
    (hmessage : reply.message = header.text ++ "): ".toList ++ spaced (execveFields args)) :
    ∃ execve, parseAuditReply part reply = some (true, execve) ∧ execve.type = AUDIT_EXECVE ∧
      ∀ event, ExecveEvent execve event →
        ∃ row, processEventList unhex file uptime [event] = some [row] ∧
          row["cmdline"]? = some (lineInKeyOrder args) := by
  have hselinux : reply.type ∉ kSELinuxEventList := by
    rw [htype]
    decide
  refine ⟨_, (parseAuditReply_of_header hpart hmessage).trans (by rw [if_neg hselinux]), htype, ?_⟩
  intro event hevent
  obtain ⟨row, hrow, hcmdline⟩ := processEventList_execve unhex hfile uptime hevent
  use row, hrow
  rw [hcmdline, finish_rendered (rendered_spaced _), commandLine_execveFields hunhex hargs]

/-- The command line is the one that was run exactly when the order of the keys gives the
same text, as it does for at most ten arguments. -/
theorem cmdline_eq_iff {part : List Char → UInt64 → UInt64 → Option (List Char)}
    (hpart : PartLaws part) (hunhex : UnhexLaws unhex) {file : String → QueryData}
    (hfile : HasTimes file) (uptime : String) {args : List (List UInt8)}
    (hargs : ∀ arg ∈ args, arg ≠ []) {reply : AuditReply} {header : AuditHeader}
    (htype : reply.type = AUDIT_EXECVE)
    (hmessage : reply.message = header.text ++ "): ".toList ++ spaced (execveFields args)) :
    (∃ execve, parseAuditReply part reply = some (true, execve) ∧ execve.type = AUDIT_EXECVE ∧
      ∀ event, ExecveEvent execve event →
        ∃ row, processEventList unhex file uptime [event] = some [row] ∧
          (row["cmdline"]? = some (lineOf args) ↔ lineInKeyOrder args = lineOf args)) ∧
      (args.length ≤ 10 → lineInKeyOrder args = lineOf args) := by
  constructor
  · obtain ⟨execve, hparse, hexecve, hrows⟩ :=
      cmdline_in_key_order hpart hunhex hfile uptime hargs htype hmessage
    use execve, hparse, hexecve
    intro event hevent
    obtain ⟨row, hrow, hcmdline⟩ := hrows event hevent
    use row, hrow
    rw [hcmdline, Option.some.injEq]
  · exact lineInKeyOrder_of_le_ten

end Subscriber

/-! ### A short command line and a long one -/

def callRecord (type : ℤ) : AuditEventRecord := ⟨type, 0, "1440542781.644:403030", ∅, ""⟩

def execveData : SyscallAuditEventData where
  syscall_number := NR_execve
  process_id := 7
  parent_process_id := 1
  executable_path := "/bin/ls"

/-- The event of a started process with the record of its arguments. -/
def execveEvent (execve : AuditEventRecord) : AuditEvent where
  type := .syscall
  data := .syscall execveData
  record_list := [callRecord AUDIT_SYSCALL, execve, callRecord AUDIT_CWD, callRecord AUDIT_PATH]

theorem execveEvent_ok {execve : AuditEventRecord} (h : execve.type = AUDIT_EXECVE) :
    ExecveEvent execve (execveEvent execve) := by
  constructor
  · rfl
  · exact ⟨_, rfl, rfl⟩
  · rw [getEventRecord, execveEvent, List.find?_cons_of_neg (by decide),
      List.find?_cons_of_pos (by simpa using h)]
  · rfl
  · rw [getEventRecord, execveEvent, List.find?_cons_of_neg (by decide),
      List.find?_cons_of_neg (by rw [h]; decide)]
    rfl
  · rw [getEventRecord, execveEvent, List.find?_cons_of_neg (by decide),
      List.find?_cons_of_neg (by rw [h]; decide)]
    rfl

def execveReply (args : List (List UInt8))
    (h : (sampleHeader.text ++ "): ".toList ++ spaced (execveFields args)).length < 2 ^ 32) :
    AuditReply where
  type := AUDIT_EXECVE
  message := sampleHeader.text ++ "): ".toList ++ spaced (execveFields args)
  len_lt := h

/-- `ls -l` -/
def lsArgs : List (List UInt8) := [[108, 115], [45, 108]]

theorem cmdline_eq_iff_ls :
    ∃ execve row,
      parseAuditReply clampedPart (execveReply lsArgs (by decide +kernel)) = some (true, execve) ∧
        processEventList decodeText (fun _ => []) "0" [execveEvent execve] = some [row] ∧
        (row["cmdline"]? = some (lineOf lsArgs) ↔ lineInKeyOrder lsArgs = lineOf lsArgs) := by
  obtain ⟨⟨execve, hparse, hexecve, hrows⟩, _⟩ :=
    @cmdline_eq_iff _ _ clampedPart_laws decodeText_laws _ noFiles_hasTimes "0" lsArgs
      (by decide +kernel) (execveReply lsArgs (by decide +kernel)) sampleHeader rfl rfl
  obtain ⟨row, hrow, hcmdline⟩ := hrows _ (execveEvent_ok hexecve)
  exact ⟨execve, row, hparse, hrow, hcmdline⟩

/-- Eleven arguments of one letter each, from `a` to `k`. -/
def letterArgs : List (List UInt8) := (List.range 11).map fun i => [UInt8.ofNat (97 + i)]

/-- The last of eleven arguments is reported in the third place. -/
theorem last_argument_third :
    ¬∀ (args : List (List UInt8)) (reply : AuditReply) (header : AuditHeader),
      args ≠ [] → (∀ arg ∈ args, arg ≠ [] ∧ 0 ∉ arg) → reply.type = AUDIT_EXECVE →
        reply.message = header.text ++ "): ".toList ++ spaced (execveFields args) →
          ∃ execve, parseAuditReply clampedPart reply = some (true, execve) ∧
            ∀ event, ExecveEvent execve event →
              ∃ row, processEventList decodeText (fun _ => []) "0" [event] = some [row] ∧
                row["cmdline"]? = some (lineOf args) := by
  intro hall
  have hargs : ∀ arg ∈ letterArgs, arg ≠ [] ∧ 0 ∉ arg := by
    decide +kernel
  obtain ⟨execve, hparse, hrows⟩ := hall letterArgs (execveReply letterArgs (by decide +kernel))
    sampleHeader (by decide +kernel) hargs rfl rfl
  obtain ⟨parsed, hparsed, hexecve, hlines⟩ :=
    @cmdline_in_key_order _ _ clampedPart_laws decodeText_laws _ noFiles_hasTimes "0" letterArgs
      (fun arg harg => (hargs arg harg).1) (execveReply letterArgs (by decide +kernel))
      sampleHeader rfl rfl
  obtain rfl := (Prod.mk.inj (Option.some.inj (hparse.symm.trans hparsed))).2
  obtain ⟨row, hrow, hline⟩ := hrows _ (execveEvent_ok hexecve)
  obtain ⟨row', hrow', hline'⟩ := hlines _ (execveEvent_ok hexecve)
  rw [hrow] at hrow'
  obtain rfl := List.singleton_inj.mp (Option.some.inj hrow')
  rw [hline] at hline'
  have hsame := Option.some.inj hline'
  revert hsame
  decide +kernel

end Osquery.AuditTables
