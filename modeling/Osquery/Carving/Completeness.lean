import Osquery.Carving.Upload

/-!
# Carves that are reported although they were not sent

The blocks that are posted are the archive, cut at the block size, as long as they are counted
right. Whether the endpoint took them has no influence on the report: a carve that was started
is reported as a success, and is one exactly when every post of a block succeeded.
-/

namespace Osquery.Carving

/-! ### The blocks of an archive -/

/-- The blocks of an archive, in their order. -/
def chunk (archive : Block) (size i : ℕ) : Block := (archive.drop (i * size)).take size

/-- Blocks up to some point are the archive up to there. -/
theorem flatten_chunks (archive : Block) (size n : ℕ) :
    ((List.range n).map (chunk archive size)).flatten = archive.take (n * size) := by
  induction n with
  | zero => simp
  | succ n ih =>
      rw [List.range_succ, List.map_append, List.flatten_append, ih, Nat.succ_mul, List.take_add]
      simp [chunk]

theorem length_chunk (archive : Block) (size i : ℕ) :
    (chunk archive size i).length = min size (archive.length - i * size) := by
  rw [chunk, List.length_take, List.length_drop]

namespace Environment

variable {e : Environment} {archive : Block}

/-- A block before the end of the archive is read as it is. -/
theorem readBlock_of_lt (hreads : e.Reads archive) {i : ℕ}
    (hlt : i * e.carver_block_size.toNat < archive.length) :
    e.readBlock (i * e.carver_block_size.toNat) =
      (chunk archive e.carver_block_size.toNat i,
        min ((i + 1) * e.carver_block_size.toNat) archive.length) := by
  have hlength := length_chunk archive e.carver_block_size.toNat i
  have hoffset : i * e.carver_block_size.toNat +
      (chunk archive e.carver_block_size.toNat i).length =
        min ((i + 1) * e.carver_block_size.toNat) archive.length := by
    rw [hlength, Nat.succ_mul]
    omega
  rw [readBlock, hreads.read, ← chunk]
  dsimp only
  split_ifs with hcut
  · rw [List.take_left, hoffset]
  · have hfull : (chunk archive e.carver_block_size.toNat i).length =
        e.carver_block_size.toNat := by
      omega
    have hdrop : (List.replicate e.carver_block_size.toNat (0 : UInt8)).drop
        (chunk archive e.carver_block_size.toNat i).length = [] := by
      rw [hfull, List.drop_eq_nil_iff, List.length_replicate]
    rw [hdrop, List.append_nil, hoffset]

/-- Every block but those behind the end begins before the end. -/
theorem lt_length_of_lt_blockNumber (hreads : e.Reads archive) {i : ℕ}
    (hi : i < e.blockNumber) : i * e.carver_block_size.toNat < archive.length := by
  rw [blockNumber, Nat.lt_ceil, hreads.size] at hi
  obtain hzero | hpos := Nat.eq_zero_or_pos e.carver_block_size.toNat
  · simp only [hzero, Nat.cast_zero, div_zero] at hi
    exact absurd hi (not_lt.mpr (Nat.cast_nonneg i))
  · rw [lt_div_iff₀ (by exact_mod_cast hpos)] at hi
    exact_mod_cast hi

/-- The blocks cover the archive, if they have a size. -/
theorem length_le_blockNumber_mul (hreads : e.Reads archive)
    (hsize : e.carver_block_size ≠ 0 ∨ e.size = 0) :
    archive.length ≤ e.blockNumber * e.carver_block_size.toNat := by
  rw [← hreads.size]
  obtain hblock | hempty := hsize
  · have hpos : 0 < e.carver_block_size.toNat := by
      apply Nat.pos_of_ne_zero
      exact fun h => hblock (UInt32.toNat_inj.mp h)
    have hle : (e.size : ℚ) / e.carver_block_size.toNat ≤ e.blockNumber := Nat.le_ceil _
    rw [div_le_iff₀ (by exact_mod_cast hpos)] at hle
    exact_mod_cast hle
  · rw [hempty]
    exact Nat.zero_le _

end Environment

/-! ### The blocks that are posted -/

namespace Carver

variable (c : Carver) {e : Environment} {archive : Block} (session_id : String)

def blockParams (i : ℕ) (block : Block) : ContinueParams where
  block_id := i
  session_id := session_id
  request_id := c.requestId_
  data := Base64.encode block

/-- As many blocks are posted as are counted, each with the answer of the endpoint. -/
theorem postBlocks_snd (e : Environment) (i offset count : ℕ) :
    (c.postBlocks e session_id i offset count).map Prod.snd =
      (List.range' i count).map e.post := by
  induction count generalizing i offset with
  | zero => rfl
  | succ count ih =>
      rw [postBlocks, List.map_cons, ih, List.range'_succ, List.map_cons]

/-- The blocks that are posted are the ones of the archive. -/
theorem postBlocks_fst (hreads : e.Reads archive) {i count : ℕ}
    (hcount : i + count ≤ e.blockNumber) {offset : ℕ}
    (hoffset : 0 < count → offset = i * e.carver_block_size.toNat) :
    (c.postBlocks e session_id i offset count).map Prod.fst =
      (List.range' i count).map fun i =>
        c.blockParams session_id i (chunk archive e.carver_block_size.toNat i) := by
  induction count generalizing i offset with
  | zero => rfl
  | succ count ih =>
      have hlt := e.lt_length_of_lt_blockNumber hreads (i := i) (by omega)
      obtain rfl := hoffset count.succ_pos
      rw [postBlocks, e.readBlock_of_lt hreads hlt, List.map_cons, List.range'_succ, List.map_cons]
      apply congrArg (_ :: ·)
      apply ih (by omega)
      intro hpos
      have hnext := e.lt_length_of_lt_blockNumber hreads (i := i + 1) (by omega)
      exact min_eq_left hnext.le

/-- What a carve that is reported as a success stands for: the endpoint opened a session, the
blocks are posted to it and make up the archive, and every one of them was taken. -/
structure Sent (c : Carver) (e : Environment) (archive : Block) (posting : Posting) : Prop where
  started : e.Started
  blocks : ∃ session_id, e.session = .ok session_id ∧ ∃ blocks : List Block,
    blocks.length = e.blockNumber ∧ blocks.flatten = archive ∧ posting.posted.map Prod.fst =
      blocks.mapIdx fun i block => c.blockParams session_id i block
  taken : ∀ post ∈ posting.posted, post.2.ok = true

/-- The carve is reported as a success, by what is returned or by what is written. -/
def Reported (posting : Posting) : Prop :=
  posting.status.ok = true ∨ ("status", "SUCCESS") ∈ posting.written

theorem reported_postCarve_iff (e : Environment) : Reported (c.postCarve e) ↔ e.Started := by
  rw [e.started_iff, Reported, postCarve]
  cases h : e.session with
  | error status => simp [e.not_ok_of_session_eq_error h]
  | ok session_id => simp [Core.Status.ok]

theorem taken_postBlocks_iff (e : Environment) (count : ℕ) :
    (∀ post ∈ c.postBlocks e session_id 0 0 count, post.2.ok = true) ↔
      ∀ i < count, (e.post i).ok = true := by
  have hsnd := c.postBlocks_snd session_id e 0 0 count
  rw [← List.range_eq_range'] at hsnd
  calc (∀ post ∈ c.postBlocks e session_id 0 0 count, post.2.ok = true)
    _ ↔ ∀ status ∈ (c.postBlocks e session_id 0 0 count).map Prod.snd, status.ok = true := by
        rw [List.forall_mem_map]
    _ ↔ ∀ i < count, (e.post i).ok = true := by
        rw [hsnd, List.forall_mem_map]
        simp only [List.mem_range]

/-- The number of posts says how the blocks were counted. -/
theorem counted_of_sent (hreads : e.Reads archive) {started : Option StartParams}
    {status : Core.Status} {written : List (String × String)}
    (h : c.Sent e archive ⟨status, started, c.postBlocks e session_id 0 0 e.blkCount, written⟩) :
    e.Counted := by
  obtain ⟨-, ⟨session_id', -, blocks, hlength, hflatten, hfst⟩, -⟩ := h
  constructor
  · calc e.blkCount
      _ = ((c.postBlocks e session_id 0 0 e.blkCount).map Prod.snd).length := by
          rw [c.postBlocks_snd, List.length_map, List.length_range']
      _ = ((c.postBlocks e session_id 0 0 e.blkCount).map Prod.fst).length := by
          rw [List.length_map, List.length_map]
      _ = e.blockNumber := by rw [hfst, List.length_mapIdx, hlength]
  · by_contra hno
    obtain ⟨hblock, hsize⟩ := not_or.mp hno
    rw [not_not] at hblock
    have hnumber : e.blockNumber = 0 := by
      simp [Environment.blockNumber, hblock]
    rw [hnumber, List.length_eq_zero_iff] at hlength
    rw [hlength, List.flatten_nil] at hflatten
    exact hsize (by rw [hreads.size, ← hflatten, List.length_nil])

/-- Whether a carve that was started is sent. -/
theorem sent_postCarve_iff (hreads : e.Reads archive) (hstarted : e.Started) :
    c.Sent e archive (c.postCarve e) ↔
      e.Counted ∧ ∀ i < e.blockNumber, (e.post i).ok = true := by
  obtain ⟨session_id, hsession⟩ := e.started_iff.mp hstarted
  rw [postCarve, hsession]
  constructor
  · intro h
    have hcounted := c.counted_of_sent session_id hreads h
    refine ⟨hcounted, ?_⟩
    rw [← hcounted.1]
    exact (c.taken_postBlocks_iff session_id e _).mp h.taken
  · rintro ⟨hcounted, htaken⟩
    refine ⟨hstarted, ⟨session_id, hsession, (List.range e.blockNumber).map
      (chunk archive e.carver_block_size.toNat), ?_, ?_, ?_⟩, ?_⟩
    · rw [List.length_map, List.length_range]
    · rw [flatten_chunks, List.take_of_length_le (e.length_le_blockNumber_mul hreads hcounted.2)]
    · dsimp only
      rw [hcounted.1, c.postBlocks_fst session_id hreads (Nat.zero_add _).le
        fun _ => (Nat.zero_mul _).symm, ← List.range_eq_range']
      apply List.ext_getElem
      · simp
      · intro i h h'
        simp
    · exact (c.taken_postBlocks_iff session_id e _).mpr (hcounted.1 ▸ htaken)

/-- A report of success is right exactly when nothing was started, or the blocks are counted
right and every post of a block succeeded. -/
theorem reported_sent_iff (hreads : e.Reads archive) :
    (Reported (c.postCarve e) → c.Sent e archive (c.postCarve e)) ↔
      ¬ e.Started ∨ e.Counted ∧ ∀ i < e.blockNumber, (e.post i).ok = true := by
  rw [reported_postCarve_iff, imp_iff_not_or]
  by_cases hstarted : e.Started
  · rw [c.sent_postCarve_iff hreads hstarted]
  · simp [hstarted]

/-! ### A block that is lost -/

/-- An archive of three bytes that is sent as two blocks. -/
def threeBytes (post : ℕ → Core.Status) : Environment where
  carver_block_size := 2
  node_key := "key"
  size := 3
  read offset nbyte := some ((([1, 2, 3] : Block).drop offset).take nbyte)
  start := ⟨.success, .success, some (.string "session")⟩
  post := post
  castOfInfinite := 0

/-- The first block is refused. -/
def refusing : Environment := threeBytes fun i => if i = 0 then ⟨1, "Request error"⟩ else .success

theorem reads_threeBytes (post : ℕ → Core.Status) :
    (threeBytes post).Reads [1, 2, 3] :=
  ⟨rfl, fun _ _ => rfl⟩

theorem started_threeBytes (post : ℕ → Core.Status) : (threeBytes post).Started :=
  ⟨rfl, rfl, "session", rfl, by decide⟩

theorem blockNumber_threeBytes (post : ℕ → Core.Status) :
    (threeBytes post).blockNumber = 2 := by
  have hsize : (UInt32.toNat 2 : ℚ) = 2 := by norm_num [show UInt32.toNat 2 = 2 from rfl]
  rw [Environment.blockNumber, threeBytes]
  apply (Nat.ceil_eq_iff two_ne_zero).mpr
  rw [hsize]
  constructor <;> norm_num

/-- A carve of three bytes, none of which is refused. -/
theorem reported_sent_iff_taking :
    Carver.Sent ⟨"guid", "request"⟩ (threeBytes fun _ => .success) [1, 2, 3]
      (Carver.postCarve ⟨"guid", "request"⟩ (threeBytes fun _ => .success)) := by
  have hreads := reads_threeBytes fun _ => .success
  have hcounted : (threeBytes fun _ => .success).Counted := by
    apply Environment.counted_of_lt
    · decide
    · decide
  have hreported := (reported_postCarve_iff ⟨"guid", "request"⟩ _).mpr
    (started_threeBytes fun _ => .success)
  exact (reported_sent_iff ⟨"guid", "request"⟩ hreads).mpr
    (.inr ⟨hcounted, fun _ _ => rfl⟩) hreported

theorem refusing_not_sent :
    ¬ (Reported (Carver.postCarve ⟨"guid", "request"⟩ refusing) →
      Carver.Sent ⟨"guid", "request"⟩ refusing [1, 2, 3]
        (Carver.postCarve ⟨"guid", "request"⟩ refusing)) := by
  intro h
  have hstarted : refusing.Started := started_threeBytes _
  have hsent := h ((reported_postCarve_iff _ refusing).mpr hstarted)
  have htaken := ((sent_postCarve_iff _ (reads_threeBytes _) hstarted).mp hsent).2
  have hnumber : 0 < refusing.blockNumber := by
    have htwo : refusing.blockNumber = 2 := blockNumber_threeBytes _
    omega
  have hfirst := htaken 0 hnumber
  revert hfirst
  decide

end Carver

end Osquery.Carving
