import Osquery.Scheduler.Blacklist

/-!
# What a restart keeps of the blacklist

The blacklist that is restored should be the part of the saved one that has not
expired. Names that have a colon, outer white space or no character at all are not
read back as they were saved; a name in several pieces also shifts what is read
after it. The times are compared in two places, which differ at the time itself,
for times that do not fit a signed number, and for queries that are not to be
blacklisted.
-/

namespace Osquery.Scheduler

open Foundation.AtomicProgram Foundation.Changes Foundation.Numeral Foundation.Separated
open Core.BackingStore Core.Conversions
open EventSubscribers (Blacklist ScheduledQuery blacklistExpired)

/-! ### What is restored -/

/-- A saved time is read back and compared with the present one. -/
def isRestored (now expire : UInt64) : Bool := decide (now < expire ∧ expire.toNat < 2 ^ 63)

theorem restorePair_toText (now : UInt64) (name : String) (expire : UInt64)
    (blacklist : Blacklist) :
    restorePair now name (toText expire.toNat) blacklist =
      if isRestored now expire then blacklist.insert name expire else blacklist := by
  rw [restorePair, stoll_toText, isRestored]
  by_cases hfits : expire.toNat < 2 ^ 63
  · rw [if_pos hfits]
    dsimp only
    rw [ofInt_toNat]
    apply if_congr _ rfl rfl
    rw [decide_eq_true_eq, and_iff_left hfits]
    apply and_iff_right_of_imp
    intro hlt
    have hlt' : now.toNat < expire.toNat := hlt
    omega
  · rw [if_neg hfits]
    dsimp only
    rw [if_neg]
    rw [decide_eq_true_eq]
    exact fun h => hfits h.2

/-- The entries that are read from the tokens of distinct names. -/
theorem getElem?_restorePairs (now : UInt64) {pairs : List (String × UInt64)}
    (hdistinct : pairs.Pairwise fun p q => p.1 ≠ q.1) (blacklist : Blacklist) (name : String) :
    (∀ expire, (name, expire) ∈ pairs →
      (restorePairs now (blacklistTokens pairs) blacklist)[name]? =
        if isRestored now expire then some expire else blacklist[name]?) ∧
    (name ∉ pairs.map Prod.fst →
      (restorePairs now (blacklistTokens pairs) blacklist)[name]? = blacklist[name]?) := by
  induction pairs generalizing blacklist with
  | nil => exact ⟨fun _ h => absurd h List.not_mem_nil, fun _ => rfl⟩
  | cons query rest ih =>
      obtain ⟨hquery, hrest⟩ := List.pairwise_cons.mp hdistinct
      have hstep : restorePairs now (blacklistTokens (query :: rest)) blacklist =
          restorePairs now (blacklistTokens rest)
            (if isRestored now query.2 then blacklist.insert query.1 query.2 else blacklist) := by
        rw [← restorePair_toText]
        rfl
      have hother : query.1 ≠ name →
          (if isRestored now query.2 then blacklist.insert query.1 query.2
            else blacklist)[name]? = blacklist[name]? := by
        intro hne
        split
        · rw [Std.ExtTreeMap.getElem?_insert, if_neg]
          rwa [Std.compare_eq_iff_eq]
        · rfl
      rw [hstep]
      obtain ⟨hmem, hnot⟩ := ih hrest
        (if isRestored now query.2 then blacklist.insert query.1 query.2 else blacklist)
      constructor
      · intro expire hentry
        rcases List.mem_cons.mp hentry with rfl | hentry
        · rw [hnot fun h => by
            obtain ⟨other, hother, heq⟩ := List.mem_map.mp h
            exact hquery other hother heq.symm]
          split
          · rw [Std.ExtTreeMap.getElem?_insert_self]
          · rfl
        · rw [hmem expire hentry, hother (hquery _ hentry)]
      · intro hname
        rw [List.map_cons, List.mem_cons, not_or] at hname
        rw [hnot hname.2, hother (Ne.symm hname.1)]

theorem length_blacklistTokens (pairs : List (String × UInt64)) :
    (blacklistTokens pairs).length = 2 * pairs.length := by
  induction pairs with
  | nil => rfl
  | cons query rest ih =>
      have hcons : blacklistTokens (query :: rest) =
          query.1 :: toText query.2.toNat :: blacklistTokens rest := rfl
      rw [hcons, List.length_cons, List.length_cons, ih, List.length_cons]
      omega

/-- With clean names, the entries that are restored are those with a good time. -/
theorem restoreBlacklist_saved {now : UInt64} {saved : Blacklist}
    (hclean : ∀ name ∈ saved, Clean name) :
    restoreBlacklist now (blacklistText saved.toList) =
      saved.filter fun _ expire => isRestored now expire := by
  have hget : ∀ query, query ∈ saved.toList ↔ saved[query.1]? = some query.2 := fun query =>
    Std.ExtTreeMap.mem_toList_iff_getElem?_eq_some
  have hpairs : ∀ query ∈ saved.toList, Clean query.1 := by
    intro query hquery
    apply hclean
    rw [← Std.ExtTreeMap.isSome_getElem?_iff_mem, (hget query).mp hquery]
    rfl
  have hpairs : restoreBlacklist now (blacklistText saved.toList) =
      restorePairs now (blacklistTokens saved.toList) ∅ := by
    rw [restoreBlacklist, split_blacklistText hpairs, length_blacklistTokens]
    split
    · rename_i h
      have hnil : saved.toList = [] := List.length_eq_zero_iff.mp (by omega)
      rw [hnil]
      rfl
    · rfl
  rw [hpairs]
  apply Std.ExtTreeMap.ext_getElem?
  intro name
  obtain ⟨hmem, hnot⟩ := getElem?_restorePairs now (pairwise_ne_toList saved) ∅ name
  rw [Std.ExtTreeMap.getElem?_filter']
  cases hname : saved[name]? with
  | some expire =>
      rw [hmem expire ((hget (name, expire)).mpr hname), Option.filter_some]
      simp
  | none =>
      rw [hnot, Option.filter_none, Std.ExtTreeMap.getElem?_empty]
      intro h
      obtain ⟨query, hquery, rfl⟩ := List.mem_map.mp h
      rw [(hget query).mp hquery] at hname
      cases hname

/-! ### What is restored of any names -/

/-- An entry as the restart reads it. -/
structure Readable (now : UInt64) (name : String) (expire : UInt64) : Prop where
  no_colon : ':' ∉ name.toList
  trimmed : trim name = name
  later : now < expire
  fits : expire.toNat < 2 ^ 63

theorem readable_restorePair {now : UInt64} {name expire : String} {blacklist : Blacklist}
    (hblacklist : ∀ k v, blacklist[k]? = some v → Readable now k v) (hcolon : ':' ∉ name.toList)
    (htrim : trim name = name) :
    ∀ k v, (restorePair now name expire blacklist)[k]? = some v → Readable now k v := by
  rw [restorePair]
  split
  · exact hblacklist
  · rename_i z hz
    split
    · rename_i hgood
      intro k v hk
      rw [Std.ExtTreeMap.getElem?_insert] at hk
      split at hk
      · rename_i heq
        obtain rfl := Std.compare_eq_iff_eq.mp heq
        obtain rfl := Option.some.inj hk
        refine ⟨hcolon, htrim, hgood.2, ?_⟩
        have hbound := stoll_lt hz
        have hmod : (z % 2 ^ 64).toNat = z.toNat := by omega
        rw [UInt64.ofInt, hmod, UInt64.toNat_ofNat']
        omega
      · exact hblacklist k v hk
    · exact hblacklist

theorem readable_restorePairs {now : UInt64} {tokens : List String} {blacklist : Blacklist}
    (hblacklist : ∀ k v, blacklist[k]? = some v → Readable now k v)
    (htokens : ∀ token ∈ tokens, ':' ∉ token.toList ∧ trim token = token) :
    ∀ k v, (restorePairs now tokens blacklist)[k]? = some v → Readable now k v := by
  induction tokens, blacklist using restorePairs.induct now with
  | case1 name expire rest blacklist ih =>
      obtain ⟨hcolon, htrim⟩ := htokens name List.mem_cons_self
      rw [restorePairs]
      apply ih (readable_restorePair hblacklist hcolon htrim)
      intro token htoken
      exact htokens token (List.mem_cons_of_mem _ (List.mem_cons_of_mem _ htoken))
  | case2 tokens blacklist hno =>
      rw [restorePairs]
      · exact hblacklist
      · exact hno

/-- Tokens have no colon and no outer white space. -/
theorem token_of_mem_split {content token : String} (h : token ∈ split content ":") :
    ':' ∉ token.toList ∧ trim token = token := by
  obtain ⟨piece, hpiece, rfl⟩ := List.mem_map.mp h
  refine ⟨fun hcolon => ?_, trim_trim piece⟩
  exact not_mem_of_mem_splitAnyOf (List.mem_filter.mp hpiece).1 (c := ':') (by decide)
    (mem_of_mem_trim hcolon)

/-- Whatever was saved, what is restored is readable. -/
theorem readable_restoreBlacklist (now : UInt64) (content : String) :
    ∀ k v, (restoreBlacklist now content)[k]? = some v → Readable now k v := by
  have hempty : ∀ (k : String) (v : UInt64),
      (∅ : Blacklist)[k]? = some v → Readable now k v := by
    intro k v hk
    rw [Std.ExtTreeMap.getElem?_empty] at hk
    cases hk
  rw [restoreBlacklist]
  split
  · exact hempty
  · exact readable_restorePairs hempty fun token htoken => token_of_mem_split htoken

/-! ### Surviving a restart -/

/-- The entries that have not expired for the scheduled queries. -/
def unexpired (queries : String → ScheduledQuery) (now : UInt64) (saved : Blacklist) :
    Blacklist :=
  saved.filter fun name expire => !blacklistExpired now expire (queries name)

/-- Restoring what was saved, over any store, returns the entries that have not expired. -/
def Survives (queries : String → ScheduledQuery) (now : UInt64) (saved : Blacklist) : Prop :=
  ∀ db : Database, ((restoreScheduleBlacklist now).run ((saveScheduleBlacklist saved).run db).2).1 =
    unexpired queries now saved

/-- Where the two comparisons agree on the times of the entries. -/
structure Timely (queries : String → ScheduledQuery) (now : UInt64) (saved : Blacklist) :
    Prop where
  later : ∀ name expire : _, saved[name]? = some expire → now ≤ expire →
    (queries name).blacklist ≠ some false → now < expire ∧ expire.toNat < 2 ^ 63
  blacklisted : ∀ name expire : _, saved[name]? = some expire → now < expire →
    expire.toNat < 2 ^ 63 → (queries name).blacklist ≠ some false

section Survives

variable {queries : String → ScheduledQuery} {now : UInt64} {saved : Blacklist}

theorem run_restore_after_save (now : UInt64) (saved : Blacklist) (db : Database) :
    ((restoreScheduleBlacklist now).run ((saveScheduleBlacklist saved).run db).2).1 =
      restoreBlacklist now (blacklistText saved.toList) := by
  have hsave : ((saveScheduleBlacklist saved).run db).2 = Ephemeral.setValue db
      kPersistentSettings kFailedQueries (blacklistText saved.toList) := rfl
  rw [hsave, restoreScheduleBlacklist, Prog.run_bind, run_readValue_of_ne_empty (by decide),
    lookup_setValue, if_pos ⟨rfl, rfl⟩]
  rfl

theorem survives_eq : Survives queries now saved ↔
    restoreBlacklist now (blacklistText saved.toList) = unexpired queries now saved := by
  constructor
  · intro h
    rw [← run_restore_after_save now saved ∅]
    exact h ∅
  · intro h db
    rw [run_restore_after_save]
    exact h

theorem blacklistExpired_eq_false_iff {expire : UInt64} {query : ScheduledQuery} :
    blacklistExpired now expire query = false ↔ now ≤ expire ∧ query.blacklist ≠ some false := by
  rw [blacklistExpired, Bool.or_eq_false_iff, decide_eq_false_iff_not, decide_eq_false_iff_not,
    gt_iff_lt, UInt64.not_lt]

/-- An entry is treated alike in both places. -/
theorem isRestored_eq_iff {expire : UInt64} {query : ScheduledQuery} :
    isRestored now expire = !blacklistExpired now expire query ↔
      (now ≤ expire → query.blacklist ≠ some false → now < expire ∧ expire.toNat < 2 ^ 63) ∧
        (now < expire → expire.toNat < 2 ^ 63 → query.blacklist ≠ some false) := by
  have hle : now < expire → now ≤ expire := UInt64.le_of_lt
  rw [Bool.eq_iff_iff, Bool.not_eq_true', blacklistExpired_eq_false_iff, isRestored,
    decide_eq_true_eq]
  tauto

/-- Two parts of a map are the same if they have the same entries of it. -/
theorem filter_eq_filter_iff {p q : String → UInt64 → Bool} :
    saved.filter p = saved.filter q ↔
      ∀ (name : String) (expire : UInt64), saved[name]? = some expire →
        p name expire = q name expire := by
  have hget : ∀ (p : String → UInt64 → Bool) (name : String),
      (saved.filter p)[name]? = saved[name]?.filter (p name) :=
    fun p name => Std.ExtTreeMap.getElem?_filter'
  constructor
  · intro h name expire hname
    have hsame := hget p name
    rw [h, hget q name, hname, Option.filter_some, Option.filter_some] at hsame
    revert hsame
    cases p name expire <;> cases q name expire <;> simp
  · intro h
    apply Std.ExtTreeMap.ext_getElem?
    intro name
    rw [hget p, hget q]
    cases hname : saved[name]? with
    | none => rfl
    | some expire => rw [Option.filter_some, Option.filter_some, h name expire hname]

/-- With clean names the blacklist survives if and only if its times are timely. -/
theorem survives_iff_timely (hclean : ∀ name ∈ saved, Clean name) :
    Survives queries now saved ↔ Timely queries now saved := by
  rw [survives_eq, restoreBlacklist_saved hclean, unexpired, filter_eq_filter_iff]
  constructor
  · intro h
    exact ⟨fun name expire hname => (isRestored_eq_iff.mp (h name expire hname)).1,
      fun name expire hname => (isRestored_eq_iff.mp (h name expire hname)).2⟩
  · intro h name expire hname
    exact isRestored_eq_iff.mpr ⟨h.later name expire hname, h.blacklisted name expire hname⟩

/-- What survives is readable. -/
theorem Survives.readable (h : Survives queries now saved) {name : String} {expire : UInt64}
    (hname : saved[name]? = some expire)
    (hunexpired : blacklistExpired now expire (queries name) = false) :
    Readable now name expire := by
  apply readable_restoreBlacklist now (blacklistText saved.toList)
  rw [survives_eq.mp h, unexpired, Std.ExtTreeMap.getElem?_filter', hname, Option.filter_some,
    hunexpired]
  rfl

/-- The empty name comes first. -/
theorem toList_of_empty_name {expire : UInt64} (h : saved[""]? = some expire) :
    ∃ rest, saved.toList = ("", expire) :: rest := by
  have hmem : ("", expire) ∈ saved.toList :=
    Std.ExtTreeMap.mem_toList_iff_getElem?_eq_some.mpr h
  have hordered : saved.toList.Pairwise fun p q => compare p.1 q.1 = .lt :=
    Std.ExtTreeMap.ordered_keys_toList
  cases hlist : saved.toList with
  | nil => exact absurd (hlist ▸ hmem) List.not_mem_nil
  | cons first rest =>
      rw [hlist] at hmem hordered
      rcases List.mem_cons.mp hmem with heq | hmem
      · exact ⟨rest, by rw [heq]⟩
      · have hlt := compare_lt_iff_lt.mp ((List.pairwise_cons.mp hordered).1 _ hmem)
        exact absurd (eq_empty_of_le hlt.le) (fun heq => absurd hlt (heq ▸ lt_irrefl _))

/-- An empty name among clean ones leaves an odd number of tokens. -/
theorem restoreBlacklist_empty_name {expire : UInt64} (h : saved[""]? = some expire)
    (hclean : ∀ name ∈ saved, name ≠ "" → Clean name) :
    restoreBlacklist now (blacklistText saved.toList) = ∅ := by
  obtain ⟨rest, hrest⟩ := toList_of_empty_name h
  have hdistinct := pairwise_ne_toList saved
  rw [hrest, List.pairwise_cons] at hdistinct
  have hothers : ∀ query ∈ rest, Clean query.1 := by
    intro query hquery
    apply hclean _ _ (hdistinct.1 query hquery).symm
    have hmem : query ∈ saved.toList := hrest ▸ List.mem_cons_of_mem _ hquery
    rw [← Std.ExtTreeMap.isSome_getElem?_iff_mem,
      Std.ExtTreeMap.mem_toList_iff_getElem?_eq_some.mp hmem]
    rfl
  have htokens : split (blacklistText saved.toList) ":" =
      toText expire.toNat :: blacklistTokens rest := by
    rw [hrest, split_blacklistText_eq, List.flatMap_cons, ← split_blacklistText_eq,
      split_blacklistText hothers, split_empty]
    rfl
  rw [restoreBlacklist, htokens, List.length_cons, length_blacklistTokens, if_pos]
  omega

theorem not_survives_empty_name {expire : UInt64} (h : saved[""]? = some expire)
    (hunexpired : blacklistExpired now expire (queries "") = false)
    (hclean : ∀ name ∈ saved, name ≠ "" → Clean name) : ¬Survives queries now saved := by
  intro hsurvives
  have hkept : (unexpired queries now saved)[""]? = some expire := by
    rw [unexpired, Std.ExtTreeMap.getElem?_filter', h, Option.filter_some, hunexpired]
    rfl
  rw [← survives_eq.mp hsurvives, restoreBlacklist_empty_name h hclean,
    Std.ExtTreeMap.getElem?_empty] at hkept
  cases hkept

end Survives

/-- With clean names the blacklist survives a restart if and only if every time is on the same side
of the present for both comparisons. With any names, it does not survive if an entry that has not
expired has a name with a colon or outer white space, the present time, or a time that does not
fit a signed number; nor if it has the empty name, and the other names are clean. -/
theorem blacklist_survives_iff (queries : String → ScheduledQuery) (now : UInt64)
    (saved : Blacklist) :
    ((∀ name ∈ saved, Clean name) →
      (Survives queries now saved ↔ Timely queries now saved)) ∧
    ∀ (name : String) (expire : UInt64), saved[name]? = some expire →
      blacklistExpired now expire (queries name) = false →
      (¬Readable now name expire ∨ name = "" ∧ ∀ other ∈ saved, other ≠ "" → Clean other) →
      ¬Survives queries now saved := by
  refine ⟨survives_iff_timely, fun name expire hname hunexpired hbad => ?_⟩
  rcases hbad with hnot | ⟨rfl, hclean⟩
  · exact fun h => hnot (h.readable hname hunexpired)
  · exact not_survives_empty_name hname hunexpired hclean

/-- A blacklisted query whose name has a colon is not blacklisted after a restart. -/
theorem not_survives_colon :
    ¬Survives (fun _ => ⟨"select 1", 60, none⟩) 0 ((∅ : Blacklist).insert "a:b" 86400) := by
  intro h
  have hentry : ((∅ : Blacklist).insert "a:b" 86400)["a:b"]? = some 86400 :=
    Std.ExtTreeMap.getElem?_insert_self
  exact (h.readable hentry (by decide)).no_colon (by decide)

end Osquery.Scheduler
