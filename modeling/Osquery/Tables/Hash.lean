import Osquery.Core.Rows

/-!
# The table of file hashes

The hashes of a file are kept under its path, with what `stat` said of the file, for as long as
`stat` says the same. When that cache is disabled, the row of a path is kept until the query ends.

## Implementation notes

What `stat` says of a file determines its content, so the hashes are a function of both the path
and that. The order of the heap is left open: any path may be at its front. Locks, delays and
warnings are left out.
-/

namespace Osquery.Tables

open Core.Rows

structure Stat where
  st_ino : ℕ
  st_mtime : ℤ
  st_size : ℕ
  deriving DecidableEq

structure MultiHashes where
  md5 : String := ""
  sha1 : String := ""
  sha256 : String := ""
  deriving DecidableEq

/-- The hashes of a file with what `stat` said of it. -/
structure FileHashCache where
  file_mtime : ℤ
  file_inode : ℕ
  file_size : ℕ
  cache_access_time : ℕ
  hashes : MultiHashes

/-- What the table is given by the host and by the heap. -/
structure HashHost where
  hashMultiFromFile : String → Stat → MultiHashes
  genSsdeepForFile : String → Option Stat → String
  posix : Bool
  front : Std.ExtTreeMap String FileHashCache → String

/-- A call for a path, with what `stat` says of it then. -/
structure HashCall where
  path : String
  dir : String
  file : Option Stat
  time : ℕ
  disable_hash_cache : Bool
  hash_cache_max : ℕ
  ssdeepUsed : Bool

structure HashState where
  files : Std.ExtTreeMap String FileHashCache := ∅
  cache : Std.ExtTreeMap String Row := ∅

inductive HashAction
  | genHashForFile (call : HashCall)
  | endQuery

/-- Clear this amount of rows every time cache eviction is triggered. -/
def kHashCacheEvictSize : ℕ := 5

def statInvalid (st : Stat) (fh : FileHashCache) : Bool :=
  if st.st_ino ≠ fh.file_inode ∨ st.st_mtime ≠ fh.file_mtime then true
  else st.st_size ≠ fh.file_size

namespace HashHost

variable (host : HashHost)

def evict : ℕ → Std.ExtTreeMap String FileHashCache → Std.ExtTreeMap String FileHashCache
  | 0, files => files
  | n + 1, files => evict n (files.erase (host.front files))

/-- The hashes of a file that is there. -/
def load (call : HashCall) (files : Std.ExtTreeMap String FileHashCache) :
    Std.ExtTreeMap String FileHashCache × Option MultiHashes :=
  match call.file with
  | none => (files, none)
  | some st =>
      match files[call.path]? with
      | none =>
          let files :=
            if files.size ≥ call.hash_cache_max then host.evict kHashCacheEvictSize files
            else files
          let hashes := host.hashMultiFromFile call.path st
          (files.insert call.path ⟨st.st_mtime, st.st_ino, st.st_size, call.time, hashes⟩,
            some hashes)
      | some entry =>
          if statInvalid st entry then
            let hashes := host.hashMultiFromFile call.path st
            (files.insert call.path
              { entry with
                cache_access_time := call.time
                file_mtime := st.st_mtime
                file_size := st.st_size
                hashes := hashes },
              some hashes)
          else
            (files.insert call.path { entry with cache_access_time := call.time },
              some entry.hashes)

/-- What hashing the file of a call gives. -/
def current (call : HashCall) : MultiHashes :=
  call.file.elim {} (host.hashMultiFromFile call.path)

/-- The cache of files, the row to start with and the hashes that go into it. -/
def prepareRow (call : HashCall) (s : HashState) :
    Std.ExtTreeMap String FileHashCache × Row × MultiHashes :=
  if call.disable_hash_cache = false then
    let loaded := host.load call s.files
    (loaded.1, ∅, loaded.2.getD {})
  else
    match s.cache[call.path]? with
    | some r => (s.files, r, {})
    | none => (s.files, ∅, host.current call)

def genHashForFile (call : HashCall) (s : HashState) : HashState × Row :=
  let prepared := host.prepareRow call s
  let hashes := prepared.2.2
  let r := ((((prepared.2.1.insert "path" call.path).insert "directory" call.dir).insert
    "md5" hashes.md5).insert "sha1" hashes.sha1).insert "sha256" hashes.sha256
  let r :=
    if host.posix && call.ssdeepUsed then
      r.insert "ssdeep" (host.genSsdeepForFile call.path call.file)
    else r
  (⟨prepared.1, if call.disable_hash_cache then s.cache.insert call.path r else s.cache⟩, r)

def step (s : HashState) : HashAction → HashState
  | .genHashForFile call => (host.genHashForFile call s).1
  | .endQuery => { s with cache := ∅ }

/-! ### Right rows -/

/-- The three columns of a row have these hashes. -/
def CarriesHashes (hashes : MultiHashes) (row : Row) : Prop :=
  row["md5"]? = some hashes.md5 ∧ row["sha1"]? = some hashes.sha1 ∧
    row["sha256"]? = some hashes.sha256

/-- Every row of the calls carries the hashes of its file as it is then. -/
def RowsRight : HashState → List HashAction → Prop
  | _, [] => True
  | s, .genHashForFile call :: actions =>
      CarriesHashes (host.current call) (host.genHashForFile call s).2 ∧
        RowsRight (host.genHashForFile call s).1 actions
  | s, .endQuery :: actions => RowsRight { s with cache := ∅ } actions

end HashHost

/-- What the last call with the cache saw of a file, with the newest action first. -/
def lastSeen (path : String) : List HashAction → Option Stat
  | [] => none
  | .genHashForFile call :: past =>
      if call.disable_hash_cache = false ∧ call.path = path ∧ call.file.isSome then call.file
      else lastSeen path past
  | .endQuery :: past => lastSeen path past

namespace HashHost

variable (host : HashHost)

/-- Without the cache, a file that has hashes was not asked for in the query yet. With it, the
entry of the file is not one that is valid again after the file was seen under another inode with
other content. -/
def NotStale (past : List HashAction) (call : HashCall) (s : HashState) : Prop :=
  ∀ st, call.file = some st →
    (call.disable_hash_cache = true →
      s.cache[call.path]? = none ∨ host.hashMultiFromFile call.path st = {}) ∧
    (call.disable_hash_cache = false → ∀ entry last,
      s.files[call.path]? = some entry → statInvalid st entry = false →
        lastSeen call.path past = some last → last.st_ino ≠ st.st_ino →
          host.hashMultiFromFile call.path last = host.hashMultiFromFile call.path st)

def NeverStale : List HashAction → HashState → List HashAction → Prop
  | _, _, [] => True
  | past, s, .genHashForFile call :: actions =>
      host.NotStale past call s ∧
        NeverStale (.genHashForFile call :: past) (host.genHashForFile call s).1 actions
  | past, s, .endQuery :: actions =>
      NeverStale (.endQuery :: past) { s with cache := ∅ } actions

/-! ### The cache of files -/

theorem statInvalid_eq_false {st : Stat} {fh : FileHashCache} :
    statInvalid st fh = false ↔
      st.st_ino = fh.file_inode ∧ st.st_mtime = fh.file_mtime ∧ st.st_size = fh.file_size := by
  rw [statInvalid]
  split
  · next h => exact ⟨fun hfalse => absurd hfalse Bool.noConfusion, fun heq => by simp_all⟩
  · next h =>
      rw [not_or, not_not, not_not] at h
      simp [h.1, h.2]

theorem getElem?_evict {n : ℕ} {files : Std.ExtTreeMap String FileHashCache} {path : String}
    {entry : FileHashCache} (h : (host.evict n files)[path]? = some entry) :
    files[path]? = some entry := by
  induction n generalizing files with
  | zero => exact h
  | succ n ih =>
      have hkept := ih h
      rw [Std.ExtTreeMap.getElem?_erase] at hkept
      split at hkept
      · exact absurd hkept (by simp)
      · exact hkept

variable {host} {call : HashCall} {s : HashState} {past : List HashAction}

variable (host) in
/-- A call gives the hashes of the entry when it is valid, and hashes the file otherwise. -/
theorem load_value {st : Stat} (hfile : call.file = some st)
    (files : Std.ExtTreeMap String FileHashCache) :
    (∃ entry, files[call.path]? = some entry ∧ statInvalid st entry = false ∧
      (host.load call files).2 = some entry.hashes) ∨
    ((∀ entry, files[call.path]? = some entry → statInvalid st entry = true) ∧
      (host.load call files).2 = some (host.hashMultiFromFile call.path st)) := by
  rw [load, hfile]
  simp only
  cases hentry : files[call.path]? with
  | none => exact Or.inr ⟨fun entry h => absurd h (by simp), rfl⟩
  | some entry =>
      simp only
      cases hvalid : statInvalid st entry with
      | false => exact Or.inl ⟨entry, rfl, hvalid, rfl⟩
      | true =>
          refine Or.inr ⟨?_, rfl⟩
          rintro _ ⟨rfl⟩
          exact hvalid

/-- An entry after a call is that of the file as it was seen, or an old one. -/
theorem load_kept {st : Stat} (hfile : call.file = some st)
    {files : Std.ExtTreeMap String FileHashCache} {path : String} {entry : FileHashCache}
    (h : (host.load call files).1[path]? = some entry) :
    (call.path = path ∧ (host.load call files).2 = some entry.hashes ∧
      st.st_mtime = entry.file_mtime ∧ st.st_size = entry.file_size) ∨
    (call.path ≠ path ∧ files[path]? = some entry) := by
  by_cases hpath : call.path = path
  · refine Or.inl ⟨hpath, ?_⟩
    subst hpath
    rw [load, hfile] at h ⊢
    simp only at h ⊢
    cases hentry : files[call.path]? with
    | none =>
        rw [hentry] at h
        obtain rfl := Option.some.inj (Std.ExtTreeMap.getElem?_insert_self.symm.trans h)
        exact ⟨rfl, rfl, rfl⟩
    | some old =>
        rw [hentry] at h
        simp only at h ⊢
        cases hvalid : statInvalid st old with
        | true =>
            rw [hvalid] at h
            obtain rfl := Option.some.inj (Std.ExtTreeMap.getElem?_insert_self.symm.trans h)
            exact ⟨rfl, rfl, rfl⟩
        | false =>
            rw [hvalid] at h
            obtain rfl := Option.some.inj (Std.ExtTreeMap.getElem?_insert_self.symm.trans h)
            exact ⟨rfl, (statInvalid_eq_false.mp hvalid).2⟩
  · refine Or.inr ⟨hpath, ?_⟩
    have hother (kept : Std.ExtTreeMap String FileHashCache) (new : FileHashCache) :
        (kept.insert call.path new)[path]? = kept[path]? := by
      rw [Std.ExtTreeMap.getElem?_insert, if_neg (by simpa using hpath)]
    rw [load, hfile] at h
    simp only at h
    split at h
    · rw [hother] at h
      split at h
      · exact getElem?_evict host h
      · exact h
    · split at h
      · rwa [hother] at h
      · rwa [hother] at h

/-! ### One call -/

theorem prepareRow_hashes (host : HashHost) (call : HashCall) (s : HashState) :
    (host.prepareRow call s).2.2 =
      if call.disable_hash_cache = false then (host.load call s.files).2.getD {}
      else if s.cache[call.path]? = none then host.current call else {} := by
  rw [prepareRow]
  split
  · rfl
  · split
    · next hcached => rw [hcached, if_neg (by simp)]
    · next hcached => rw [hcached, if_pos rfl]

theorem genHashForFile_hashes (host : HashHost) (call : HashCall) (s : HashState) :
    CarriesHashes (host.prepareRow call s).2.2 (host.genHashForFile call s).2 := by
  rw [genHashForFile]
  cases host.posix && call.ssdeepUsed <;>
    simp only [CarriesHashes, Std.ExtTreeMap.getElem?_insert, compare_eq_iff_eq,
      Bool.false_eq_true, if_false, if_true] <;> simp

theorem CarriesHashes.inj {hashes hashes' : MultiHashes} {row : Row}
    (h : CarriesHashes hashes row) (h' : CarriesHashes hashes' row) : hashes = hashes' := by
  obtain ⟨md5, sha1, sha256⟩ := hashes
  obtain ⟨md5', sha1', sha256'⟩ := hashes'
  obtain ⟨hmd5, hsha1, hsha256⟩ := h
  obtain ⟨hmd5', hsha1', hsha256'⟩ := h'
  rw [hmd5, Option.some.injEq] at hmd5'
  rw [hsha1, Option.some.injEq] at hsha1'
  rw [hsha256, Option.some.injEq] at hsha256'
  exact MultiHashes.mk.injEq .. |>.mpr ⟨hmd5', hsha1', hsha256'⟩

theorem carriesHashes_iff {hashes : MultiHashes} :
    CarriesHashes hashes (host.genHashForFile call s).2 ↔
      (host.prepareRow call s).2.2 = hashes := by
  constructor
  · exact fun h => (genHashForFile_hashes host call s).inj h
  · rintro rfl
    exact genHashForFile_hashes host call s

theorem files_genHashForFile :
    (host.genHashForFile call s).1.files =
      if call.disable_hash_cache = false then (host.load call s.files).1 else s.files := by
  rw [genHashForFile, prepareRow]
  split
  · rfl
  · split <;> rfl

/-- While rows are right, an entry has the hashes of the file as it was last seen. -/
def Current (host : HashHost) (past : List HashAction) (s : HashState) : Prop :=
  ∀ path entry, s.files[path]? = some entry → ∃ last, lastSeen path past = some last ∧
    entry.hashes = host.hashMultiFromFile path last ∧
      last.st_mtime = entry.file_mtime ∧ last.st_size = entry.file_size

theorem right_iff_notStale (h : Current host past s) :
    CarriesHashes (host.current call) (host.genHashForFile call s).2 ↔
      host.NotStale past call s := by
  rw [carriesHashes_iff, prepareRow_hashes, current, NotStale]
  cases hfile : call.file with
  | none =>
      have hload : (host.load call s.files).2 = none := by rw [load, hfile]
      refine ⟨fun _ st hst => absurd hst (by simp), fun _ => ?_⟩
      rw [hload]
      split
      · rfl
      · split <;> rfl
  | some st =>
      simp only [Option.elim_some, Option.some.injEq, forall_eq']
      cases hdisabled : call.disable_hash_cache with
      | true =>
          simp only [Bool.true_eq_false, if_false, forall_const, IsEmpty.forall_iff, and_true]
          cases hcached : s.cache[call.path]? with
          | none => simp
          | some r => simp [eq_comm]
      | false =>
          simp only [Bool.false_eq_true, if_true, forall_const, IsEmpty.forall_iff, true_and]
          rcases load_value host hfile s.files with
            ⟨entry, hentry, hvalid, hvalue⟩ | ⟨hinvalid, hvalue⟩
          · obtain ⟨last, hlast, hhashes, hmtime, hsize⟩ := h call.path entry hentry
            obtain ⟨hino, hmtime', hsize'⟩ := statInvalid_eq_false.mp hvalid
            rw [hvalue, Option.getD_some, hhashes]
            constructor
            · intro heq entry' last' hentry' hvalid' hlast' hne
              rw [hlast, Option.some.injEq] at hlast'
              rw [← hlast']
              exact heq
            · intro hfresh
              by_cases hsame : last.st_ino = st.st_ino
              · have hstat : last = st :=
                  Stat.mk.injEq .. |>.mpr ⟨hsame, hmtime.trans hmtime'.symm,
                    hsize.trans hsize'.symm⟩
                rw [hstat]
              · exact hfresh entry last hentry hvalid hlast hsame
          · rw [hvalue, Option.getD_some]
            refine ⟨fun _ entry last hentry hvalid => ?_, fun _ => rfl⟩
            rw [hinvalid entry hentry] at hvalid
            exact absurd hvalid Bool.noConfusion

/-- A right row leaves entries with the hashes of the files as they were last seen. -/
theorem Current.genHashForFile (h : Current host past s)
    (hright : CarriesHashes (host.current call) (host.genHashForFile call s).2) :
    Current host (.genHashForFile call :: past) (host.genHashForFile call s).1 := by
  intro path entry hentry
  rw [files_genHashForFile] at hentry
  rw [carriesHashes_iff, prepareRow_hashes] at hright
  rw [lastSeen]
  cases hdisabled : call.disable_hash_cache with
  | true =>
      rw [hdisabled, if_neg Bool.noConfusion] at hentry
      rw [if_neg fun hand => absurd hand.1 Bool.noConfusion]
      exact h path entry hentry
  | false =>
      rw [hdisabled, if_pos rfl] at hentry
      rw [if_pos hdisabled] at hright
      cases hfile : call.file with
      | none =>
          have hload : (host.load call s.files).1 = s.files := by rw [load, hfile]
          rw [if_neg fun hand => absurd hand.2.2 Bool.noConfusion]
          rw [hload] at hentry
          exact h path entry hentry
      | some st =>
          rcases load_kept hfile hentry with ⟨hpath, hvalue, hmtime, hsize⟩ | ⟨hpath, hold⟩
          · subst hpath
            rw [if_pos ⟨rfl, rfl, rfl⟩]
            refine ⟨st, rfl, ?_, hmtime, hsize⟩
            rw [hvalue, current, hfile] at hright
            exact hright
          · rw [if_neg fun hand => hpath hand.2.1]
            exact h path entry hold

/-! ### Runs -/

theorem rowsRight_iff_of_current (actions : List HashAction) (h : Current host past s) :
    host.RowsRight s actions ↔ host.NeverStale past s actions := by
  induction actions generalizing past s with
  | nil => exact Iff.rfl
  | cons action actions ih =>
      cases action with
      | genHashForFile call =>
          rw [RowsRight, NeverStale, ← right_iff_notStale h]
          exact and_congr_right fun hright => ih (h.genHashForFile hright)
      | endQuery =>
          rw [RowsRight, NeverStale]
          exact ih h

/-- From the start, the rows of a run are right exactly when no call of it finds a stale entry or
a row of its own query. -/
theorem rowsRight_iff (host : HashHost) (actions : List HashAction) :
    host.RowsRight {} actions ↔ host.NeverStale [] {} actions := by
  apply rowsRight_iff_of_current
  intro path entry hentry
  exact absurd hentry (by simp)

instance (hashes : MultiHashes) (row : Row) : Decidable (CarriesHashes hashes row) :=
  inferInstanceAs (Decidable (_ ∧ _ ∧ _))

instance decidableRowsRight (host : HashHost) :
    (s : HashState) → (actions : List HashAction) → Decidable (host.RowsRight s actions)
  | _, [] => .isTrue trivial
  | s, .genHashForFile call :: actions =>
      have := decidableRowsRight host (host.genHashForFile call s).1 actions
      inferInstanceAs (Decidable (_ ∧ _))
  | s, .endQuery :: actions => decidableRowsRight host { s with cache := ∅ } actions

/-- Two contents, told apart by the inode. -/
def twoFiles : HashHost where
  hashMultiFromFile _ st := if st.st_ino = 1 then ⟨"1a", "1b", "1c"⟩ else ⟨"2a", "2b", "2c"⟩
  genSsdeepForFile _ _ := "-1"
  posix := true
  front _ := ""

def hashHosts (file : Stat) (disable_hash_cache : Bool) : HashAction :=
  .genHashForFile ⟨"/etc/hosts", "/etc", some file, 0, disable_hash_cache, 500, false⟩

/-- Without the cache, the second row of a query has no hashes. With it, a file that is exchanged
for another of its size and time, and back, gets the hashes of the other one. -/
theorem not_rowsRight_hosts :
    ¬ twoFiles.RowsRight {} [hashHosts ⟨1, 0, 5⟩ true, hashHosts ⟨1, 0, 5⟩ true] ∧
    ¬ twoFiles.RowsRight {}
      [hashHosts ⟨1, 0, 5⟩ false, hashHosts ⟨2, 0, 5⟩ false, hashHosts ⟨1, 0, 5⟩ false] := by
  decide +kernel

end HashHost

end Osquery.Tables
