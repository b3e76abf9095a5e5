import Osquery.FileEvents.Subscriber
import Osquery.Foundation.Transducers

/-!
# Reports of accesses to a descriptor

A descriptor remembers what was done with it last, and an access is marked when this changes:
the first one, and the first write when it follows reads. So of the accesses between an open
and a close at most one read and one write are marked, and a write never stays hidden behind
reads.

## Implementation notes

Between two accesses to the descriptor there may be other events, as long as its entry is the
one that the access before left, and its inode is tracked.
-/

namespace Osquery.FileEvents.Monitoring

open EventPublishers AuditTables Foundation.Transducers

/-! ### The operation that is noted last -/

/-- The operation that is noted after an access, and whether it is marked. -/
def note (last_operation : OperationType) (write_operation : Bool) : OperationType × Bool :=
  nextOperation write_operation last_operation

def marks (last_operation : OperationType) (writes : List Bool) : List Bool :=
  outputs note last_operation writes

/-- The accesses that are marked. -/
def marked (last_operation : OperationType) (writes : List Bool) : List Bool :=
  ((writes.zip (marks last_operation writes)).filter Prod.snd).map Prod.fst

theorem marks_cons (last_operation : OperationType) (w : Bool) (writes : List Bool) :
    marks last_operation (w :: writes) =
      (note last_operation w).2 :: marks (note last_operation w).1 writes := rfl

theorem marked_cons (last_operation : OperationType) (w : Bool) (writes : List Bool) :
    marked last_operation (w :: writes) =
      if (note last_operation w).2 then w :: marked (note last_operation w).1 writes
      else marked (note last_operation w).1 writes := by
  rw [marked, marks_cons, List.zip_cons_cons, List.filter_cons]
  split
  · rfl
  · rfl

/-- A write before which there are only reads. -/
def FirstWrite (writes : List Bool) (i : ℕ) : Prop :=
  writes[i]? = some true ∧ ∀ j < i, writes[j]? = some false

theorem firstWrite_succ {w : Bool} {writes : List Bool} {i : ℕ} :
    FirstWrite (w :: writes) (i + 1) ↔ w = false ∧ FirstWrite writes i := by
  constructor
  · rintro ⟨hwrite, hreads⟩
    refine ⟨Option.some.inj (hreads 0 (Nat.succ_pos i)), hwrite, ?_⟩
    intro j hj
    exact hreads (j + 1) (Nat.succ_lt_succ hj)
  · rintro ⟨rfl, hwrite, hreads⟩
    refine ⟨hwrite, ?_⟩
    intro j hj
    cases j with
    | zero => rfl
    | succ j => exact hreads j (Nat.lt_of_succ_lt_succ hj)

theorem marks_write (writes : List Bool) :
    marks .Write writes = List.replicate writes.length false := by
  induction writes with
  | nil => rfl
  | cons w writes ih =>
      rw [marks_cons, List.length_cons, List.replicate_succ, ← ih]
      rfl

theorem not_mark_write (writes : List Bool) (i : ℕ) : (marks .Write writes)[i]? ≠ some true := by
  rw [marks_write, List.getElem?_replicate]
  split
  · simp
  · simp

/-- After a read exactly the first write is marked. -/
theorem mark_read_iff {writes : List Bool} {i : ℕ} :
    (marks .Read writes)[i]? = some true ↔ FirstWrite writes i := by
  induction writes generalizing i with
  | nil => simp [marks, FirstWrite]
  | cons w writes ih =>
      rw [marks_cons]
      cases i with
      | zero => cases w <;> simp [note, nextOperation, FirstWrite]
      | succ i =>
          rw [firstWrite_succ, List.getElem?_cons_succ]
          cases w with
          | true => exact iff_of_false (not_mark_write writes i) (by simp)
          | false => exact ih.trans (and_iff_right rfl).symm

/-- After an open the first access is marked, and the first write. -/
theorem mark_open_iff {last_operation : OperationType}
    (hopen : last_operation = .Open ∨ last_operation = .OpenTruncate) {writes : List Bool}
    {i : ℕ} (hi : i < writes.length) :
    (marks last_operation writes)[i]? = some true ↔ i = 0 ∨ FirstWrite writes i := by
  obtain ⟨w, writes, rfl⟩ := List.exists_cons_of_length_pos (Nat.zero_lt_of_lt hi)
  have hnote : note last_operation w = (if w then .Write else .Read, true) := by
    obtain rfl | rfl := hopen
    · rfl
    · rfl
  rw [marks_cons, hnote]
  cases i with
  | zero => simp
  | succ i =>
      rw [firstWrite_succ, List.getElem?_cons_succ, or_iff_right (Nat.succ_ne_zero i)]
      cases w with
      | true => exact iff_of_false (not_mark_write writes i) (by simp)
      | false => exact mark_read_iff.trans (and_iff_right rfl).symm

theorem marked_write (writes : List Bool) : marked .Write writes = [] := by
  induction writes with
  | nil => rfl
  | cons w writes ih =>
      rw [marked_cons]
      exact ih

/-- After a read a write is reported, if there is one. -/
theorem marked_read (writes : List Bool) :
    marked .Read writes = if true ∈ writes then [true] else [] := by
  induction writes with
  | nil => rfl
  | cons w writes ih =>
      rw [marked_cons]
      cases w with
      | true =>
          have hnote : note .Read true = (.Write, true) := rfl
          simp [hnote, marked_write]
      | false =>
          have hnote : note .Read false = (.Read, false) := rfl
          simp [hnote, ih]

theorem marked_open {last_operation : OperationType}
    (hopen : last_operation = .Open ∨ last_operation = .OpenTruncate) (w : Bool)
    (writes : List Bool) :
    marked last_operation (w :: writes) =
      if w then [true] else if true ∈ writes then [false, true] else [false] := by
  have hnote : note last_operation w = (if w then .Write else .Read, true) := by
    obtain rfl | rfl := hopen
    · rfl
    · rfl
  rw [marked_cons, hnote]
  cases w with
  | true => simp [marked_write]
  | false =>
      simp only [if_true, Bool.false_eq_true, if_false, marked_read]
      split
      · rfl
      · rfl

/-! ### Accesses -/

/-- A call that reads from a descriptor or writes to one, and the maps that it is handled with. -/
structure Access where
  fim_context : AuditdFimContext
  number : SyscallNumber
  syscall_context : SyscallContext
  record : AuditEventRecord

namespace Access

def outcome (a : Access) : Outcome :=
  handleFileDescriptorSyscallRecord a.fim_context a.number a.syscall_context a.record

def writes (a : Access) : Bool := (descriptorUse a.number a.syscall_context.mmap_prot_flags).1

def state_changed (a : Access) : Bool :=
  match a.outcome.syscall_context.syscall_data with
  | .io data => data.state_changed
  | .src_dest _ => false

/-- The access is one to the descriptor, which has the entry and a tracked inode. -/
structure On (process_id : ℤ) (fd : UInt64) (fd_desc : AuditdFimFdDescriptor) (a : Access) :
    Prop where
  uses : UsesDescriptor a.number
  pid : a.syscall_context.pid = process_id
  descriptor : descriptorOf a.number a.syscall_context a.record = some fd
  known : a.fim_context.process_map.getReference process_id fd = some fd_desc
  tracked : fd_desc.inode ∈ a.fim_context.inode_map

variable {process_id : ℤ} {fd : UInt64} {fd_desc : AuditdFimFdDescriptor} {a : Access}

theorem On.state_changed_eq (h : a.On process_id fd fd_desc) :
    a.state_changed = (note fd_desc.last_operation a.writes).2 := by
  obtain ⟨ino_desc, hinode⟩ := Option.isSome_iff_exists.mp
    (Std.ExtTreeMap.mem_iff_isSome_getElem?.mp h.tracked)
  have hknown := h.known
  rw [← h.pid] at hknown
  simp only [state_changed, outcome, handleFileDescriptorSyscallRecord, h.descriptor, hknown,
    hinode]
  rfl

/-- The entry that an access leaves has the operation that was noted. -/
theorem On.getReference_outcome (h : a.On process_id fd fd_desc) :
    a.outcome.fim_context.process_map.getReference process_id fd =
      some { fd_desc with last_operation := (note fd_desc.last_operation a.writes).1 } := by
  obtain ⟨fd_map, hmap, hfd⟩ := Option.bind_eq_some_iff.mp h.known
  have hknown := h.known
  rw [← h.pid] at hknown
  simp only [outcome, handleFileDescriptorSyscallRecord, h.descriptor, hknown]
  rw [h.pid, AuditdFimProcessMap.getReference, setOperation,
    Std.ExtTreeMap.getElem?_modify_self, hmap, Option.map_some, Option.bind_some,
    Std.ExtTreeMap.getElem?_modify_self, hfd]
  rfl

/-- A call on another descriptor, or one that is not known, leaves the entry alone. -/
theorem getReference_outcome_of_other
    (h : a.syscall_context.pid = process_id →
      descriptorOf a.number a.syscall_context a.record ≠ some fd) :
    a.outcome.fim_context.process_map.getReference process_id fd =
      a.fim_context.process_map.getReference process_id fd := by
  rw [outcome, handleFileDescriptorSyscallRecord]
  dsimp only
  split
  · rfl
  · next other hother =>
      split
      · rfl
      · next other_desc _ =>
          dsimp only
          rw [AuditdFimProcessMap.getReference, setOperation, Std.ExtTreeMap.getElem?_modify]
          split
          · next hpid =>
              have hpid := Std.LawfulEqOrd.eq_of_compare hpid
              have hfd : ¬compare other fd = .eq := by
                rw [Std.LawfulEqOrd.compare_eq_iff_eq]
                rintro rfl
                exact h hpid hother
              rw [AuditdFimProcessMap.getReference, ← hpid, Option.bind_map]
              congr 1
              funext fd_map
              rw [Function.comp_apply, Std.ExtTreeMap.getElem?_modify, if_neg hfd]
          · rfl

end Access

/-- Accesses to a descriptor, each with the entry that the one before left. -/
inductive Accesses (process_id : ℤ) (fd : UInt64) : AuditdFimFdDescriptor → List Access → Prop
  | nil (fd_desc : AuditdFimFdDescriptor) : Accesses process_id fd fd_desc []
  | cons {fd_desc fd_desc' : AuditdFimFdDescriptor} {a : Access} {accesses : List Access}
      (h : a.On process_id fd fd_desc)
      (hleft : a.outcome.fim_context.process_map.getReference process_id fd = some fd_desc')
      (hrest : Accesses process_id fd fd_desc' accesses) :
      Accesses process_id fd fd_desc (a :: accesses)

section Runs

variable {process_id : ℤ} {fd : UInt64} {fd_desc : AuditdFimFdDescriptor} {accesses : List Access}

/-- The accesses are marked as the operations are noted. -/
theorem Accesses.map_state_changed (h : Accesses process_id fd fd_desc accesses) :
    accesses.map Access.state_changed =
      marks fd_desc.last_operation (accesses.map Access.writes) := by
  induction h with
  | nil => rfl
  | cons h hleft hrest ih =>
      have hentry := Option.some.inj (hleft.symm.trans h.getReference_outcome)
      rw [List.map_cons, List.map_cons, marks_cons, ih, h.state_changed_eq, hentry]

theorem Accesses.map_filter (h : Accesses process_id fd fd_desc accesses) :
    (accesses.filter Access.state_changed).map Access.writes =
      marked fd_desc.last_operation (accesses.map Access.writes) := by
  rw [marked, ← h.map_state_changed, List.zip_map', List.filter_map, List.map_map]
  rfl

/-- Calls on descriptors that are handled one after another. -/
def inOrder : AuditdFimContext → List Access → List Access
  | _, [] => []
  | fim_context, a :: calls =>
      { a with fim_context } :: inOrder { a with fim_context : Access }.outcome.fim_context calls

def onDescriptor (process_id : ℤ) (fd : UInt64) (a : Access) : Bool :=
  a.syscall_context.pid = process_id ∧ descriptorOf a.number a.syscall_context a.record = some fd

/-- Among the calls of all processes, those on a known descriptor of a tracked inode are such
accesses. -/
theorem accesses_inOrder {fim_context : AuditdFimContext}
    (hknown : fim_context.process_map.getReference process_id fd = some fd_desc)
    (htracked : fd_desc.inode ∈ fim_context.inode_map) {calls : List Access}
    (huses : ∀ a ∈ calls, UsesDescriptor a.number) :
    Accesses process_id fd fd_desc
      ((inOrder fim_context calls).filter (onDescriptor process_id fd)) := by
  induction calls generalizing fim_context fd_desc with
  | nil => exact .nil fd_desc
  | cons a calls ih =>
      have hrest := fun b hb => huses b (List.mem_cons_of_mem _ hb)
      let handled : Access := { a with fim_context }
      have hinodes : fd_desc.inode ∈ handled.outcome.fim_context.inode_map := by
        rw [Access.outcome, inode_map_fileDescriptor]
        exact htracked
      rw [inOrder, List.filter_cons]
      split
      · next hon =>
          obtain ⟨hpid, hfd⟩ := of_decide_eq_true hon
          have hon : handled.On process_id fd fd_desc :=
            ⟨huses a List.mem_cons_self, hpid, hfd, hknown, htracked⟩
          exact .cons hon hon.getReference_outcome (ih hon.getReference_outcome hinodes hrest)
      · next hother =>
          have hframe := Access.getReference_outcome_of_other (a := handled)
            fun hpid hfd => hother (decide_eq_true ⟨hpid, hfd⟩)
          exact ih (hframe.trans hknown) hinodes hrest

/-- Of the accesses to a descriptor after its open, the first is marked and the first write; so
what is reported is at most a read and then a write, and a write is reported if there is one. -/
theorem accesses_reported (h : Accesses process_id fd fd_desc accesses)
    (hopen : fd_desc.last_operation = .Open ∨ fd_desc.last_operation = .OpenTruncate) :
    (∀ i (hi : i < accesses.length), accesses[i].state_changed = true ↔
      i = 0 ∨ accesses[i].writes = true ∧ ∀ j (hj : j < i), accesses[j].writes = false) ∧
    ((accesses.filter Access.state_changed).map Access.writes).Sublist [false, true] ∧
    ((∃ a ∈ accesses, a.writes = true) →
      ∃ a ∈ accesses, a.state_changed = true ∧ a.writes = true) := by
  refine ⟨?_, ?_, ?_⟩
  · intro i hi
    have hmark := @mark_open_iff _ hopen (accesses.map Access.writes) i (by simpa)
    rw [← h.map_state_changed, List.getElem?_map, List.getElem?_eq_getElem hi, Option.map_some,
      Option.some.injEq] at hmark
    rw [hmark, FirstWrite, List.getElem?_map, List.getElem?_eq_getElem hi, Option.map_some,
      Option.some.injEq]
    refine or_congr_right (and_congr_right fun _ => forall_congr' fun j => ?_)
    refine forall_congr' fun hj => ?_
    rw [List.getElem?_map, List.getElem?_eq_getElem (hj.trans hi), Option.map_some,
      Option.some.injEq]
  · rw [h.map_filter]
    cases accesses with
    | nil => exact List.nil_sublist _
    | cons a accesses =>
        rw [List.map_cons, marked_open hopen]
        split
        · decide
        · split
          · decide
          · decide
  · rintro ⟨a, ha, hwrite⟩
    have hmem : true ∈ (accesses.filter Access.state_changed).map Access.writes := by
      rw [h.map_filter]
      obtain ⟨b, rest, rfl⟩ := List.exists_cons_of_ne_nil (List.ne_nil_of_mem ha)
      have hwrites : true ∈ (b :: rest).map Access.writes := List.mem_map.mpr ⟨a, ha, hwrite⟩
      rw [List.map_cons] at hwrites ⊢
      rw [marked_open hopen]
      split
      · exact List.mem_cons_self
      · next hread =>
          have hrest := (List.mem_cons.mp hwrites).resolve_left (Ne.symm hread)
          rw [if_pos hrest]
          exact List.mem_cons_of_mem _ List.mem_cons_self
    obtain ⟨b, hb, hbwrite⟩ := List.mem_map.mp hmem
    obtain ⟨hb, hchanged⟩ := List.mem_filter.mp hb
    exact ⟨b, hb, hchanged, hbwrite⟩

end Runs

/-! ### Two reads and a write -/

def sampleContext : AuditdFimContext where
  process_map := AuditdFimProcessMap.save ∅ 3 7 100 .Open
  inode_map := AuditdFimInodeMap.initial.save 100 .File "/tmp/a"

def sampleAccess (number : SyscallNumber) (process_id : Int32) : Access where
  fim_context := {}
  number := number
  syscall_context :=
    { syscall_number := 0, process_id, parent_process_id := 1, process_uid := 0, process_gid := 0,
      process_euid := 0, process_egid := 0, executable_path := "/bin/cat" }
  record := auditRecord AUDIT_SYSCALL [("a0", "3")]

/-- The calls of two processes on their descriptors 3. -/
def sampleAccesses : List Access :=
  (inOrder sampleContext [sampleAccess .nr_read 7, sampleAccess .nr_write 8,
    sampleAccess .nr_read 7, sampleAccess .nr_write 7]).filter (onDescriptor 7 3)

theorem accesses_reported_sample :
    (∀ i (hi : i < sampleAccesses.length), sampleAccesses[i].state_changed = true ↔
      i = 0 ∨ sampleAccesses[i].writes = true ∧
        ∀ j (hj : j < i), sampleAccesses[j].writes = false) ∧
    ((sampleAccesses.filter Access.state_changed).map Access.writes).Sublist [false, true] ∧
    ((∃ a ∈ sampleAccesses, a.writes = true) →
      ∃ a ∈ sampleAccesses, a.state_changed = true ∧ a.writes = true) := by
  have hknown : sampleContext.process_map.getReference 7 3 = some ⟨100, .Open⟩ := by decide +kernel
  have htracked : (100 : UInt64) ∈ sampleContext.inode_map := by decide +kernel
  refine accesses_reported (accesses_inOrder hknown htracked ?_) (.inl rfl)
  simp [sampleAccess, UsesDescriptor]

end Osquery.FileEvents.Monitoring
