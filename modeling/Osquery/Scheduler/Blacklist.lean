import Osquery.EventSubscribers.Schedule

/-!
# The saved blacklist

Queries that were executing when the process died are blacklisted for a day. The
blacklist is saved as one text of names and times, separated by colons, and is
read back when the next process starts.

## Implementation notes

Nothing is escaped, so a name with a colon is read back as something else, and a
name loses its outer white space. `Clean` names survive the round trip.
-/

namespace Osquery.Scheduler

open Foundation.AtomicProgram Foundation.Numeral Foundation.Separated
open Core.BackingStore Core.Conversions
open EventSubscribers (Blacklist kExecutingQuery)

def kFailedQueries : String := "failed_queries"

/-! ### Saving and restoring -/

/-- One more pair of a name and the time at which it leaves the blacklist. -/
def restorePair (now : UInt64) (name expire : String) (blacklist : Blacklist) : Blacklist :=
  match stoll expire with
  | .error _ => blacklist
  | .ok expire =>
      if expire > 0 ∧ now < UInt64.ofInt expire then
        blacklist.insert name (UInt64.ofInt expire)
      else blacklist

def restorePairs (now : UInt64) : List String → Blacklist → Blacklist
  | name :: expire :: rest, blacklist =>
      restorePairs now rest (restorePair now name expire blacklist)
  | _, blacklist => blacklist

/-- Nothing is restored from an odd number of tokens. -/
def restoreBlacklist (now : UInt64) (content : String) : Blacklist :=
  let blacklist_pairs := split content ":"
  if blacklist_pairs.length = 0 ∨ blacklist_pairs.length % 2 ≠ 0 then ∅
  else restorePairs now blacklist_pairs ∅

def restoreScheduleBlacklist (now : UInt64) : Prog DbOp Blacklist := do
  let content ← readValue kPersistentSettings kFailedQueries
  return restoreBlacklist now content

/-- The text of the pairs in the order of the names. -/
def blacklistText (pairs : List (String × UInt64)) : String :=
  pairs.foldl (fun content query =>
    (if content = "" then content else content ++ ":") ++ query.1 ++ ":" ++
      toText query.2.toNat) ""

def saveScheduleBlacklist (blacklist : Blacklist) : Prog DbOp Unit := do
  let _ ← setDatabaseValue kPersistentSettings kFailedQueries (blacklistText blacklist.toList)
  return ()

/-! ### The round trip -/

/-- A name that is read back as it was saved. -/
structure Clean (name : String) : Prop where
  ne_empty : name ≠ ""
  no_colon : ':' ∉ name.toList
  trimmed : trim name = name

/-- The tokens of the saved text. -/
def blacklistTokens (pairs : List (String × UInt64)) : List String :=
  pairs.flatMap fun query => [query.1, toText query.2.toNat]

theorem clean_toText (n : ℕ) : Clean (toText n) := by
  have hdigit : ∀ c ∈ (toText n).toList, c.isDigit = true := fun c hc => isDigit_of_mem_toText hc
  constructor
  · exact toText_ne_empty n
  · intro hcolon
    exact absurd (hdigit ':' hcolon) (by decide)
  · apply trim_of_no_space
    exact fun c hc => isDigit_not_space (hdigit c hc)

theorem Clean.split_eq {name : String} (h : Clean name) : split name ":" = [name] := by
  apply split_eq_singleton _ h.ne_empty h.trimmed
  intro c hc
  obtain rfl := List.mem_singleton.mp (show c ∈ [':'] from hc)
  exact h.no_colon

theorem blacklistText_concat (rest : List (String × UInt64)) (query : String × UInt64) :
    blacklistText (rest ++ [query]) =
      (if blacklistText rest = "" then blacklistText rest else blacklistText rest ++ ":") ++
        query.1 ++ ":" ++ toText query.2.toNat := by
  rw [blacklistText, List.foldl_append, List.foldl_cons, List.foldl_nil]
  rfl

/-- Every name is split by itself and followed by its time. -/
theorem split_blacklistText_eq (pairs : List (String × UInt64)) :
    split (blacklistText pairs) ":" =
      pairs.flatMap fun query => split query.1 ":" ++ [toText query.2.toNat] := by
  have hsep : (":" : String).toList = [':'] := by decide
  induction pairs using List.reverseRecOn with
  | nil => exact split_empty ":"
  | append_singleton rest query ih =>
      have hstart : split ((if blacklistText rest = "" then blacklistText rest
          else blacklistText rest ++ ":") ++ query.1) ":" =
            split (blacklistText rest) ":" ++ split query.1 ":" := by
        split
        · rename_i hempty
          rw [hempty, split_empty, String.empty_append, List.nil_append]
        · exact split_append hsep
      rw [blacklistText_concat, split_append hsep, hstart, ih, (clean_toText _).split_eq,
        List.flatMap_append, List.append_assoc, List.flatMap_singleton]

theorem split_blacklistText {pairs : List (String × UInt64)}
    (hclean : ∀ query ∈ pairs, Clean query.1) :
    split (blacklistText pairs) ":" = blacklistTokens pairs := by
  rw [split_blacklistText_eq, blacklistTokens]
  simp only [List.flatMap_def]
  congr 1
  apply List.map_congr_left
  intro query hquery
  rw [(hclean query hquery).split_eq, List.singleton_append]

theorem mem_restorePair {now : UInt64} {name expire k : String} {blacklist : Blacklist}
    (h : k ∈ restorePair now name expire blacklist) : k = name ∨ k ∈ blacklist := by
  rw [restorePair] at h
  split at h
  · exact Or.inr h
  · split at h
    · rw [Std.ExtTreeMap.mem_insert, Std.compare_eq_iff_eq] at h
      exact h.imp Eq.symm id
    · exact Or.inr h

theorem mem_restorePairs {now : UInt64} {pairs : List (String × UInt64)} {k : String}
    {blacklist : Blacklist} (h : k ∈ restorePairs now (blacklistTokens pairs) blacklist) :
    k ∈ pairs.map Prod.fst ∨ k ∈ blacklist := by
  induction pairs generalizing blacklist with
  | nil => exact Or.inr h
  | cons query rest ih =>
      rcases ih h with h | h
      · exact Or.inl (List.mem_cons_of_mem _ h)
      · rcases mem_restorePair h with rfl | h
        · exact Or.inl List.mem_cons_self
        · exact Or.inr h

/-- Only names that were saved are restored. -/
theorem mem_restoreBlacklist {now : UInt64} {saved : Blacklist} {k : String}
    (hclean : ∀ name ∈ saved, Clean name)
    (h : k ∈ restoreBlacklist now (blacklistText saved.toList)) : k ∈ saved := by
  have hpairs : ∀ query ∈ saved.toList, Clean query.1 := by
    intro query hquery
    apply hclean
    rw [← Std.ExtTreeMap.mem_keys, ← Std.ExtTreeMap.map_fst_toList_eq_keys]
    exact List.mem_map_of_mem hquery
  rw [restoreBlacklist, split_blacklistText hpairs] at h
  split at h
  · exact absurd h Std.ExtTreeMap.not_mem_empty
  · rcases mem_restorePairs h with h | h
    · rw [Std.ExtTreeMap.map_fst_toList_eq_keys] at h
      exact Std.ExtTreeMap.mem_keys.mp h
    · exact absurd h Std.ExtTreeMap.not_mem_empty

end Osquery.Scheduler
