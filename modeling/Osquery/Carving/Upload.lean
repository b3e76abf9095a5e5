import Osquery.Core.Status
import Osquery.Foundation.FloatingPoint

/-!
# Carves that are sent to an endpoint in blocks

The archive of a carve is announced with the number of its blocks. The endpoint answers with a
session, and then gets the archive block by block. A block that cannot be posted is only
logged, so a carve is reported as a success once the session is there.

## Implementation notes

The number of blocks is computed with numbers of double precision. Without a block size it is
whatever the machine makes of a quotient by zero. The file is known by its size and by what a
read at an offset returns, if it does. What is written for the carve is kept as a list of keys
and values.
-/

namespace Osquery.Carving

open Core Foundation.DoublePrecision

abbrev Block := List UInt8

namespace Base64

def alphabet : List Char :=
  "ABCDEFGHIJKLMNOPQRSTUVWXYZabcdefghijklmnopqrstuvwxyz0123456789+/".toList

/-- The groups of six bits, the last one filled with zeros. -/
def sextets : Block → List ℕ
  | [] => []
  | [a] => [a.toNat / 4, a.toNat % 4 * 16]
  | [a, b] => [a.toNat / 4, a.toNat % 4 * 16 + b.toNat / 16, b.toNat % 16 * 4]
  | a :: b :: c :: rest =>
      [a.toNat / 4, a.toNat % 4 * 16 + b.toNat / 16, b.toNat % 16 * 4 + c.toNat / 64,
        c.toNat % 64] ++ sextets rest

def encode (unencoded : Block) : String :=
  let writePaddChars := (3 - unencoded.length % 3) % 3
  String.ofList ((sextets unencoded).map (fun i => alphabet.getD i '=') ++
    List.replicate writePaddChars '=')

example : encode [1, 2] = "AQI=" := by decide

end Base64

/-- A member of a JSON object. -/
inductive Member
  | string (value : String)
  | other

/-- What the start request leads to. -/
structure StartAnswer where
  called : Status
  response : Status
  session_id : Option Member

structure StartParams where
  block_count : ℕ
  block_size : ℕ
  carve_size : ℕ
  carve_id : String
  request_id : String
  node_key : String

structure ContinueParams where
  block_id : ℕ
  session_id : String
  request_id : String
  data : String

/-- What a carve meets: the flags, the archive and the answers of the endpoint. -/
structure Environment where
  carver_block_size : UInt32
  node_key : String
  size : ℕ
  read : ℕ → ℕ → Option Block
  start : StartAnswer
  post : ℕ → Status
  castOfInfinite : ℕ

structure Carver where
  carveGuid_ : String
  requestId_ : String

/-- What posting a carve returns, sends and writes. -/
structure Posting where
  status : Status
  started : Option StartParams
  posted : List (ContinueParams × Status)
  written : List (String × String)

namespace Environment

variable (e : Environment)

def blkCount : ℕ :=
  if e.carver_block_size = 0 then e.castOfInfinite
  else ⌈double (double e.size / double e.carver_block_size.toNat)⌉₊

/-- The block that is read at an offset, and the offset after it. A buffer that is not filled
is cut to what was read, unless that is nothing. -/
def readBlock (offset : ℕ) : Block × ℕ :=
  let block := List.replicate e.carver_block_size.toNat 0
  match e.read offset e.carver_block_size.toNat with
  | none => (block, offset)
  | some bytes =>
      let block := bytes ++ block.drop bytes.length
      if bytes.length ≠ e.carver_block_size.toNat ∧ bytes.length > 0 then
        (block.take bytes.length, offset + bytes.length)
      else (block, offset + bytes.length)

/-- The session that the endpoint opened, or why there is none. -/
def session : Except Status String :=
  if ¬ e.start.called.ok then .error e.start.called
  else if ¬ e.start.response.ok then .error e.start.response
  else
    match e.start.session_id with
    | none => .error ⟨1, "No session_id received from remote endpoint"⟩
    | some .other => .error ⟨1, "Invalid session_id received from remote endpoint"⟩
    | some (.string session_id) =>
        if session_id = "" then .error ⟨1, "Empty session_id received from remote endpoint"⟩
        else .ok session_id

end Environment

namespace Carver

variable (c : Carver) (e : Environment)

def startParams : StartParams where
  block_count := e.blkCount
  block_size := e.carver_block_size.toNat
  carve_size := e.size
  carve_id := c.carveGuid_
  request_id := c.requestId_
  node_key := e.node_key

/-- The blocks from one on. A failure to post one is only logged. -/
def postBlocks (session_id : String) (i offset : ℕ) : ℕ → List (ContinueParams × Status)
  | 0 => []
  | count + 1 =>
      let read := e.readBlock offset
      let params : ContinueParams :=
        { block_id := i
          session_id := session_id
          request_id := c.requestId_
          data := Base64.encode read.1 }
      (params, e.post i) :: postBlocks session_id (i + 1) read.2 count

def postCarve : Posting :=
  match e.session with
  | .error status => ⟨status, some (c.startParams e), [], []⟩
  | .ok session_id =>
      { status := ⟨0, "Ok"⟩
        started := some (c.startParams e)
        posted := c.postBlocks e session_id 0 0 e.blkCount
        written := [("status", "SUCCESS")] }

end Carver

/-- How the stages before the posting end. -/
structure Stages where
  created : Status
  archived : Status
  carver_compression : Bool
  compressed : Status
  read_max : ℕ
  hash : String

/-- What is written for a carve from its start on. -/
def Carver.start (c : Carver) (e : Environment) (stages : Stages) : List (String × String) :=
  if ¬ stages.created.ok then []
  else if ¬ stages.archived.ok then [("status", "ARCHIVE FAILED")]
  else if stages.carver_compression ∧ ¬ stages.compressed.ok then [("status", "COMPRESS FAILED")]
  else
    let uploadHash := if e.size > stages.read_max then "-1" else stages.hash
    let posting := c.postCarve e
    [("size", toString e.size), ("sha256", uploadHash)] ++ posting.written ++
      if posting.status.ok then [] else [("status", "DATA POST FAILED")]

/-! ### What a successful carve stands for -/

namespace Environment

variable (e : Environment)

/-- A read of the archive returns what is there, up to the size of a block. -/
structure Reads (archive : Block) : Prop where
  size : e.size = archive.length
  read : ∀ offset nbyte, e.read offset nbyte = some ((archive.drop offset).take nbyte)

/-- The endpoint accepts the carve and opens a session. -/
def Started : Prop :=
  e.start.called.ok = true ∧ e.start.response.ok = true ∧
    ∃ session_id, e.start.session_id = some (.string session_id) ∧ session_id ≠ ""

def blockNumber : ℕ := ⌈(e.size : ℚ) / e.carver_block_size.toNat⌉₊

/-- The blocks are counted right, and they have a size if there is anything to send. -/
def Counted : Prop :=
  e.blkCount = e.blockNumber ∧ (e.carver_block_size ≠ 0 ∨ e.size = 0)

theorem session_eq_ok_iff (session_id : String) :
    e.session = .ok session_id ↔
      e.start.called.ok = true ∧ e.start.response.ok = true ∧
        e.start.session_id = some (.string session_id) ∧ session_id ≠ "" := by
  rw [session]
  split_ifs with hcalled hresponse
  · rw [and_iff_right hcalled, and_iff_right hresponse]
    cases hmember : e.start.session_id with
    | none => simp
    | some member =>
        cases member with
        | other => simp
        | string value =>
            by_cases hempty : value = ""
            · simp only [hempty, if_true]
              grind
            · simp only [hempty, if_false]
              grind
  · simp [hresponse]
  · simp [hcalled]

theorem started_iff : e.Started ↔ ∃ session_id, e.session = .ok session_id := by
  simp only [Started, session_eq_ok_iff]
  tauto

theorem not_ok_of_session_eq_error {status : Status} (h : e.session = .error status) :
    status.ok = false := by
  rw [session] at h
  split_ifs at h with hcalled hresponse
  · split at h
    · obtain rfl := Except.error.inj h
      rfl
    · obtain rfl := Except.error.inj h
      rfl
    · split_ifs at h
      obtain rfl := Except.error.inj h
      rfl
  · obtain rfl := Except.error.inj h
    simpa using hresponse
  · obtain rfl := Except.error.inj h
    simpa using hcalled

/-- A double is exact enough to count the blocks of an archive of less than 2 ^ 53 bytes. -/
theorem counted_of_lt (hblock : e.carver_block_size ≠ 0) (hsize : e.size < 2 ^ 53) :
    e.Counted := by
  have hpos : 0 < e.carver_block_size.toNat := by
    apply Nat.pos_of_ne_zero
    exact fun h => hblock (UInt32.toNat_inj.mp h)
  have hlt : e.carver_block_size.toNat < 2 ^ 53 :=
    lt_trans e.carver_block_size.toNat_lt (by norm_num)
  refine ⟨?_, .inl hblock⟩
  rw [blkCount, if_neg hblock, double_natCast hsize, double_natCast hlt,
    ceil_double_div hsize hpos, blockNumber]

end Environment

end Osquery.Carving
