import Osquery.Config.Sources
import Osquery.Foundation.JsonTokens

/-!
# Comments in the configuration

Before a text is parsed, lines that begin with a comment sign are removed, all other lines are
trimmed, and a backslash at the end of a line joins it with the next one. A text of JSON has no
line that could be taken for a comment or joined with the next one, and its tokens do not depend
on the white space around its lines. So comments between its lines do not change what it means.

## Implementation notes

A text is read by the standard grammar, in which a string has no line break and a backslash is
followed by a letter, so nothing has to be said about either. Comments may stand before the first
line and after the last one, too.
-/

namespace Osquery.Config

open Foundation.JsonText Foundation.JsonTokens Foundation.Separated Core.Conversions Core.Rows

/-! ### Inserted comments -/

/-- A line whose first characters after white space are a comment sign, and whose last one is no
backslash. -/
structure CommentLine (line : String) : Prop where
  isComment_trim : isComment (trim line) = true
  noNewline : '\n' ∉ line.toList
  noBackslash : line.toList.getLast? ≠ some '\\'

/-- The lines with comments between them. -/
inductive WithComments : List String → List String → Prop
  | nil : WithComments [] []
  | line (line : String) {lines lines' : List String} (h : WithComments lines lines') :
      WithComments (line :: lines) (line :: lines')
  | comment {comment : String} (hcomment : CommentLine comment) {lines lines' : List String}
      (h : WithComments lines lines') : WithComments lines (comment :: lines')

/-- The lines that are kept. -/
def keptLines (lines : List String) : List String :=
  (((lines.filter fun line => line ≠ "").map trim).map trim).filter fun line => !isComment line

theorem toList_sinkLines (lines : List String) (sink : String) :
    (lines.foldl (fun sink line => sink ++ line ++ "\n") sink).toList =
      sink.toList ++ lines.flatMap fun line => line.toList ++ ['\n'] := by
  have hnewline : ("\n" : String).toList = ['\n'] := by decide
  induction lines generalizing sink with
  | nil => simp
  | cons line lines ih =>
      rw [List.foldl_cons, ih, String.toList_append, String.toList_append, hnewline,
        List.flatMap_cons, List.append_assoc, List.append_assoc]
      simp

theorem toList_stripConfigComments (json : String) :
    (stripConfigComments json).toList =
      (keptLines (splitAnyOf (String.ofList (joinLines json.toList)) "\n")).flatMap
        fun line => line.toList ++ ['\n'] := by
  have hempty : ("" : String).toList = [] := by decide
  rw [stripConfigComments, toList_sinkLines, hempty, List.nil_append, split, keptLines]

/-! ### Lines that are not joined -/

theorem joinLines_cons {c : Char} {rest : List Char} (h : ¬(c = '\\' ∧ rest.head? = some '\n')) :
    joinLines (c :: rest) = c :: joinLines rest := by
  rw [joinLines]
  rintro rest' rfl rfl
  exact h ⟨rfl, rfl⟩

theorem joinLines_of_no_newline {line : List Char} (h : '\n' ∉ line) : joinLines line = line := by
  induction line with
  | nil => rfl
  | cons c line ih =>
      rw [List.mem_cons, not_or] at h
      rw [joinLines_cons, ih h.2]
      rintro ⟨-, hhead⟩
      exact h.2 (List.mem_of_mem_head? hhead)

theorem joinLines_append_newline {line rest : List Char} (h : '\n' ∉ line)
    (hlast : line.getLast? ≠ some '\\') :
    joinLines (line ++ '\n' :: rest) = line ++ '\n' :: joinLines rest := by
  have hnewline : joinLines ('\n' :: rest) = '\n' :: joinLines rest :=
    joinLines_cons fun hc => absurd hc.1 (by decide)
  induction line with
  | nil => exact hnewline
  | cons c line ih =>
      rw [List.mem_cons, not_or] at h
      cases line with
      | nil =>
          have hc : c ≠ '\\' := fun heq => hlast (by rw [heq]; rfl)
          rw [List.singleton_append, joinLines_cons fun hboth => hc hboth.1, hnewline]
          rfl
      | cons d line =>
          have hd : d ≠ '\n' := fun heq => h.2 (by simp [heq])
          rw [List.getLast?_cons_cons] at hlast
          have hstep : joinLines (c :: (d :: line ++ '\n' :: rest)) =
              c :: joinLines (d :: line ++ '\n' :: rest) :=
            joinLines_cons fun hboth => hd (Option.some.inj hboth.2)
          rw [List.cons_append, hstep, ih h.2 hlast]
          rfl

/-- Lines of which none ends in a backslash stay as they are. -/
theorem joinLines_join {lines : List String} (hnewline : ∀ line ∈ lines, '\n' ∉ line.toList)
    (hlast : ∀ line ∈ lines, line.toList.getLast? ≠ some '\\') :
    joinLines (join lines "\n").toList = (join lines "\n").toList := by
  have hsep : ("\n" : String).toList = ['\n'] := by decide
  induction lines with
  | nil => rw [join_nil]; rfl
  | cons line lines ih =>
      have hline := hnewline line (List.mem_cons_self ..)
      cases lines with
      | nil =>
          have hjoin : join [line] "\n" = line := by simp [join]
          rw [hjoin, joinLines_of_no_newline hline]
      | cons next lines =>
          rw [toList_join_cons_cons, hsep, List.singleton_append,
            joinLines_append_newline hline (hlast line (List.mem_cons_self ..)),
            ih (fun line h => hnewline line (List.mem_cons_of_mem _ h))
              fun line h => hlast line (List.mem_cons_of_mem _ h)]

/-! ### The lines that are kept -/

theorem isComment_eq_false {line : String} {ts : List Token}
    (h : tokens line.toList = some ts) : isComment line = false := by
  rw [isComment]
  split
  · rename_i rest heq
    rw [heq, tokens_comment _ _ (Or.inl rfl)] at h
    cases h
  · rename_i rest heq
    rw [heq, tokens_comment _ _ (Or.inr rfl)] at h
    cases h
  · rfl

theorem keptLines_cons (line : String) (lines : List String) :
    keptLines (line :: lines) =
      if line = "" ∨ isComment (trim line) = true then keptLines lines
      else trim line :: keptLines lines := by
  by_cases hempty : line = ""
  · rw [if_pos (Or.inl hempty), keptLines, List.filter_cons_of_neg (by simpa using hempty)]
    rfl
  · rw [keptLines, List.filter_cons_of_pos (by simpa using hempty), List.map_cons, List.map_cons,
      trim_trim]
    by_cases hcomment : isComment (trim line) = true
    · rw [if_pos (Or.inr hcomment), List.filter_cons_of_neg (by simpa using hcomment)]
      rfl
    · rw [if_neg (not_or.mpr ⟨hempty, hcomment⟩),
        List.filter_cons_of_pos (by simpa using hcomment)]
      rfl

/-- The lines that are kept have the tokens of the lines without the comments. -/
theorem linesTokens_keptLines {lines lines' : List String} (h : WithComments lines lines')
    {ts : List Token} (hts : linesTokens lines = some ts) :
    linesTokens (keptLines lines') = some ts := by
  induction h generalizing ts with
  | nil => exact hts
  | line line _ ih =>
      obtain ⟨own, rest, hown, hrest, rfl⟩ := linesTokens_cons_eq_some.mp hts
      rw [keptLines_cons]
      by_cases hempty : line = ""
      · subst hempty
        rw [if_pos (Or.inl rfl)]
        cases hown
        exact ih hrest
      · have htrim := tokens_trim hown
        have hkept : ¬(line = "" ∨ isComment (trim line) = true) := by
          rw [isComment_eq_false htrim]
          simpa using hempty
        rw [if_neg hkept]
        exact linesTokens_cons_eq_some.mpr ⟨own, rest, htrim, ih hrest, rfl⟩
  | comment hcomment _ ih =>
      rw [keptLines_cons, if_pos (Or.inr hcomment.isComment_trim)]
      exact ih hts

/-! ### Stripping -/

/-- Neither the lines with tokens nor the comments end in a backslash or have a line break. -/
theorem WithComments.unjoined {lines lines' : List String} (h : WithComments lines lines')
    {ts : List Token} (hts : linesTokens lines = some ts)
    (hnewline : ∀ line ∈ lines, '\n' ∉ line.toList) :
    (∀ line ∈ lines', '\n' ∉ line.toList) ∧
      ∀ line ∈ lines', line.toList.getLast? ≠ some '\\' := by
  induction h generalizing ts with
  | nil => exact ⟨nofun, nofun⟩
  | line line _ ih =>
      obtain ⟨own, rest, hown, hrest, -⟩ := linesTokens_cons_eq_some.mp hts
      obtain ⟨hfree, hlast⟩ := ih hrest fun line h => hnewline line (List.mem_cons_of_mem _ h)
      have hbackslash : line.toList.getLast? ≠ some '\\' := by
        intro heq
        obtain ⟨before, hsplit⟩ := List.getLast?_eq_some_iff.mp heq
        rw [hsplit, tokens, tokensFrom_concat_backslash] at hown
        cases hown
      exact ⟨List.forall_mem_cons.mpr ⟨hnewline line (List.mem_cons_self ..), hfree⟩,
        List.forall_mem_cons.mpr ⟨hbackslash, hlast⟩⟩
  | comment hcomment _ ih =>
      obtain ⟨hfree, hlast⟩ := ih hts hnewline
      exact ⟨List.forall_mem_cons.mpr ⟨hcomment.noNewline, hfree⟩,
        List.forall_mem_cons.mpr ⟨hcomment.noBackslash, hlast⟩⟩

theorem WithComments.ne_nil {lines lines' : List String} (h : WithComments lines lines')
    (hne : lines ≠ []) : lines' ≠ [] := by
  cases h with
  | nil => exact hne
  | line => exact List.cons_ne_nil _ _
  | comment => exact List.cons_ne_nil _ _

/-- What is left after stripping has the tokens of the text without comments. -/
theorem tokens_stripConfigComments {text : String} {ts : List Token}
    (h : tokens text.toList = some ts) {lines : List String}
    (hinsert : WithComments (splitAnyOf text "\n") lines) :
    tokens (stripConfigComments (join lines "\n")).toList = some ts := by
  have hsep : ("\n" : String).toList = ['\n'] := by decide
  have hnonempty : splitAnyOf text "\n" ≠ [] := by
    rw [splitAnyOf, ne_eq, List.map_eq_nil_iff]
    exact List.splitOnP_ne_nil _ _
  have hlines : linesTokens (splitAnyOf text "\n") = some ts := by
    obtain ⟨line, rest, hsplit⟩ := List.exists_cons_of_ne_nil hnonempty
    rw [hsplit, ← tokens_join, ← hsplit, join_splitAnyOf hsep, h]
  obtain ⟨hfree, hlast⟩ := hinsert.unjoined hlines fun line hline =>
    not_mem_of_mem_splitAnyOf hline (by rw [hsep]; exact List.mem_singleton_self _)
  rw [toList_stripConfigComments, joinLines_join hfree hlast, String.ofList_toList,
    splitAnyOf_join hsep (hinsert.ne_nil hnonempty) hfree, tokens_flatMap_line]
  exact linesTokens_keptLines hinsert hlines

/-- Comments between the lines of a text change nothing: after stripping, it is read as the same
document. -/
theorem readText_stripConfigComments {text : String} {v : Json} (h : readText text = some v)
    {lines : List String} (hinsert : WithComments (splitAnyOf text "\n") lines) :
    readText (stripConfigComments (join lines "\n")) = some v := by
  obtain ⟨ts, hts, hdocument⟩ := Option.bind_eq_some_iff.mp h
  rw [readText, tokens_stripConfigComments hts hinsert]
  exact hdocument

/-- A configuration of two lines with a comment before each of them. -/
theorem readText_stripConfigComments_twoLines :
    readText (stripConfigComments (join
      ["# The host", "\x7b\"a\": \"#\",", " // and its port", "\"b\": 1\x7d"] "\n")) =
        some (.obj [("a", .str "#"), ("b", .int 1)]) := by
  have hread : readText "\x7b\"a\": \"#\",\n\"b\": 1\x7d" =
      some (.obj [("a", .str "#"), ("b", .int 1)]) := rfl
  have hsplit : splitAnyOf "\x7b\"a\": \"#\",\n\"b\": 1\x7d" "\n" =
      ["\x7b\"a\": \"#\",", "\"b\": 1\x7d"] := by decide +kernel
  refine readText_stripConfigComments hread ?_
  rw [hsplit]
  exact .comment ⟨by decide +kernel, by decide, by decide⟩
    (.line _ (.comment ⟨by decide +kernel, by decide, by decide⟩ (.line _ .nil)))

end Osquery.Config
