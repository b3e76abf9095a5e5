import Osquery.FileEvents.Monitoring
import Osquery.Foundation.Simulation

/-!
# Saves beyond the limits of the tracking maps

The maps of processes and of inodes are ordered by key, and when one has too many entries after
a save its first entry is erased. That entry need not be the oldest one, and may be the one that
was just saved.

## Implementation notes

Beside each map its keys are kept in the order in which their entries were created. A save of a
process or an inode that is there creates no entry.
-/

namespace Osquery.FileEvents.TrackingLimits

open Foundation Foundation.LimitedMaps Foundation.CreationOrder Foundation.Simulation
open Monitoring

/-! ### Processes -/

structure ProcessSave where
  fd : UInt64
  process_id : ℤ
  inode : UInt64
  last_operation : OperationType

namespace ProcessSave

def apply (op : ProcessSave) (data : AuditdFimProcessMap) : AuditdFimProcessMap :=
  data.save op.fd op.process_id op.inode op.last_operation

/-- A change to the descriptors of a process that is there. -/
def change (data : AuditdFimProcessMap) (process_id : ℤ) (f : AuditdFimFdMap → AuditdFimFdMap) :
    AuditdFimProcessMap :=
  match data[process_id]? with
  | none => data
  | some fd_map => data.insert process_id (f fd_map)

theorem mem_change {data : AuditdFimProcessMap} {process_id j : ℤ}
    {f : AuditdFimFdMap → AuditdFimFdMap} : j ∈ change data process_id f ↔ j ∈ data := by
  cases hdata : data[process_id]? with
  | none => rw [change, hdata]
  | some fd_map =>
      have hmem : process_id ∈ data := by
        rw [Std.ExtTreeMap.mem_iff_isSome_getElem?, hdata]
        rfl
      rw [change, hdata]
      simp only [Std.ExtTreeMap.mem_insert, Std.LawfulEqOrd.compare_eq_iff_eq]
      exact or_iff_right_of_imp fun heq => heq ▸ hmem

theorem size_change {data : AuditdFimProcessMap} {process_id : ℤ}
    {f : AuditdFimFdMap → AuditdFimFdMap} : (change data process_id f).size = data.size := by
  cases hdata : data[process_id]? with
  | none => rw [change, hdata]
  | some fd_map =>
      have hmem : process_id ∈ data := by
        rw [Std.ExtTreeMap.mem_iff_isSome_getElem?, hdata]
        rfl
      rw [change, hdata]
      simp only [Std.ExtTreeMap.size_insert, Std.ExtTreeMap.contains_iff_mem, hmem, if_true]

/-- The map that holds the process, if the limit leaves it there. -/
def opened (data : AuditdFimProcessMap) (process_id : ℤ) : AuditdFimProcessMap :=
  if process_id ∈ data then data else insertLimited 4096 data process_id ∅

theorem apply_eq (op : ProcessSave) (data : AuditdFimProcessMap) :
    op.apply data =
      change (opened data op.process_id) op.process_id
        (·.save op.fd op.inode op.last_operation) := by
  have hlimit : AuditdFimProcessMap.limit (data.insert op.process_id ∅) =
      insertLimited 4096 data op.process_id ∅ := by
    rw [AuditdFimProcessMap.limit, insertLimited, limited]
    split
    · cases (data.insert op.process_id ∅).minKey? <;> rfl
    · rfl
  rw [apply, AuditdFimProcessMap.save, hlimit, opened]
  simp only [Std.ExtTreeMap.mem_iff_isSome_getElem?]
  rfl

theorem size_apply_le {op : ProcessSave} {data : AuditdFimProcessMap} (h : data.size ≤ 4096) :
    (op.apply data).size ≤ 4096 := by
  rw [apply_eq, size_change, opened]
  split
  · exact h
  · exact size_insertLimited_le h op.process_id ∅

/-- The processes after a save. -/
theorem mem_apply {op : ProcessSave} {data : AuditdFimProcessMap} (h : data.size ≤ 4096) {j : ℤ} :
    j ∈ op.apply data ↔ j ∈ insertLimited 4096 data op.process_id ∅ := by
  rw [apply_eq, mem_change, opened]
  split
  · next hpid =>
      constructor
      · intro hj
        by_contra hgone
        exact not_displaces (Or.inl ⟨hpid, h⟩) j
          ((not_mem_insertLimited_iff ∅ (Or.inr hj)).mp hgone)
      · intro hj
        rcases mem_of_mem_insertLimited hj with rfl | hj
        · exact hpid
        · exact hj
  · exact Iff.rfl

def step (d : Dated 4096 ℤ AuditdFimFdMap) (op : ProcessSave) : Dated 4096 ℤ AuditdFimFdMap :=
  d.put op.process_id (op.apply d.entries)
    (fun _ hj => mem_of_mem_insertLimited ((mem_apply d.size_le).mp hj))
    (size_apply_le d.size_le)

/-- What a save is for: its descriptor is kept, and the oldest process goes if one has to. -/
structure Keeps (d : Dated 4096 ℤ AuditdFimFdMap) (op : ProcessSave) : Prop where
  present : (op.apply d.entries).getReference op.process_id op.fd =
    some ⟨op.inode, op.last_operation⟩
  within : (op.apply d.entries).size ≤ 4096
  oldest : d.EvictsOldest op.process_id (op.apply d.entries)

/-- The descriptor is not there with other values, and the process that the new one displaces
is the oldest one. -/
structure Allowed (d : Dated 4096 ℤ AuditdFimFdMap) (op : ProcessSave) : Prop where
  unsaved : ∀ fd_desc,
    AuditdFimProcessMap.getReference d.entries op.process_id op.fd = some fd_desc →
      fd_desc = ⟨op.inode, op.last_operation⟩
  oldest : d.OldestDisplaced op.process_id

theorem getReference_apply {op : ProcessSave} {d : Dated 4096 ℤ AuditdFimFdMap}
    (hkept : op.process_id ∈ op.apply d.entries) :
    (op.apply d.entries).getReference op.process_id op.fd =
      (AuditdFimProcessMap.getReference d.entries op.process_id op.fd).or
        (some ⟨op.inode, op.last_operation⟩) := by
  have herased : ¬Erased d.entries op.process_id := by
    rintro ⟨-, hdisplaces⟩
    exact (not_mem_insertLimited_iff ∅ (Or.inl rfl)).mpr hdisplaces
      ((mem_apply d.size_le).mp hkept)
  rw [apply, getReference_save herased, if_pos rfl]

theorem mem_of_getReference {data : AuditdFimProcessMap} {process_id : ℤ} {fd : UInt64}
    {fd_desc : AuditdFimFdDescriptor}
    (h : data.getReference process_id fd = some fd_desc) : process_id ∈ data := by
  obtain ⟨fd_map, hdata, -⟩ := Option.bind_eq_some_iff.mp h
  rw [Std.ExtTreeMap.mem_iff_isSome_getElem?, hdata]
  rfl

/-- The value that is there first is the one that stays. -/
theorem or_eq_iff {α : Type} {o : Option α} {a : α} :
    o.or (some a) = some a ↔ ∀ b, o = some b → b = a := by
  cases o with
  | none => simp
  | some b => simp

theorem keeps_iff_allowed (d : Dated 4096 ℤ AuditdFimFdMap) (op : ProcessSave) :
    Keeps d op ↔ Allowed d op := by
  have hafter : ∀ j, j ∈ op.apply d.entries ↔ j ∈ insertLimited 4096 d.entries op.process_id ∅ :=
    fun j => mem_apply d.size_le
  have hkeeps := Dated.keeps_iff ∅ hafter
  constructor
  · rintro ⟨hpresent, -, holdest⟩
    have hkept := mem_of_getReference hpresent
    rw [getReference_apply hkept] at hpresent
    exact ⟨or_eq_iff.mp hpresent, hkeeps.mp ⟨hkept, holdest⟩⟩
  · rintro ⟨hunsaved, holdest⟩
    obtain ⟨hkept, hevicts⟩ := hkeeps.mpr holdest
    refine ⟨?_, size_apply_le d.size_le, hevicts⟩
    rw [getReference_apply hkept]
    exact or_eq_iff.mpr hunsaved

/-! A run of saves for new processes -/

theorem mem_apply_new {op : ProcessSave} {data : AuditdFimProcessMap} (h : data.size < 4096)
    {j : ℤ} : j ∈ op.apply data ↔ j = op.process_id ∨ j ∈ data := by
  rw [mem_apply (Nat.le_of_lt h), insertLimited_of_room h, Std.ExtTreeMap.mem_insert,
    Std.LawfulEqOrd.compare_eq_iff_eq, eq_comm]

theorem size_apply_new {op : ProcessSave} {data : AuditdFimProcessMap} (h : data.size < 4096)
    (hnew : op.process_id ∉ data) : (op.apply data).size = data.size + 1 := by
  rw [apply_eq, size_change, opened, if_neg hnew, insertLimited_of_room h,
    Std.ExtTreeMap.size_insert, if_neg (by rwa [Std.ExtTreeMap.contains_iff_mem])]

theorem foldl_step_new (ops : List ProcessSave) (d : Dated 4096 ℤ AuditdFimFdMap)
    (hdistinct : (ops.map process_id).Nodup) (hnew : ∀ op ∈ ops, op.process_id ∉ d.entries)
    (hroom : d.entries.size + ops.length ≤ 4096) :
    (ops.foldl step d).entries.size = d.entries.size + ops.length ∧
      ∀ j, j ∈ (ops.foldl step d).entries ↔ j ∈ ops.map process_id ∨ j ∈ d.entries := by
  induction ops generalizing d with
  | nil => simp
  | cons op ops ih =>
      rw [List.map_cons, List.nodup_cons] at hdistinct
      rw [List.forall_mem_cons] at hnew
      rw [List.length_cons] at hroom
      have hlt : d.entries.size < 4096 := by omega
      have hsize : (step d op).entries.size = d.entries.size + 1 := size_apply_new hlt hnew.1
      have hmem : ∀ j, j ∈ (step d op).entries ↔ j = op.process_id ∨ j ∈ d.entries :=
        fun j => mem_apply_new hlt
      have hnext : ∀ other ∈ ops, other.process_id ∉ (step d op).entries := by
        intro other hother
        rw [hmem, not_or]
        refine ⟨fun heq => hdistinct.1 ?_, hnew.2 other hother⟩
        exact heq ▸ List.mem_map_of_mem hother
      obtain ⟨hsize', hmem'⟩ := ih (step d op) hdistinct.2 hnext (by omega)
      rw [List.foldl_cons, List.length_cons, List.map_cons]
      refine ⟨by omega, fun j => ?_⟩
      rw [hmem', hmem, List.mem_cons]
      tauto

end ProcessSave

/-! ### Inodes -/

structure InodeSave where
  inode : UInt64
  type : InodeType
  path : String

namespace InodeSave

def apply (op : InodeSave) (data : AuditdFimInodeMap) : AuditdFimInodeMap :=
  data.save op.inode op.type op.path

theorem apply_eq (op : InodeSave) (data : AuditdFimInodeMap) :
    op.apply data = insertLimited 20000 data op.inode ⟨op.type, op.path⟩ :=
  inode_map_save_eq data op.inode op.type op.path

theorem size_apply_le {op : InodeSave} {data : AuditdFimInodeMap} (h : data.size ≤ 20000) :
    (op.apply data).size ≤ 20000 := by
  rw [apply_eq]
  exact size_insertLimited_le h op.inode ⟨op.type, op.path⟩

def step (d : Dated 20000 UInt64 AuditdFimInodeDescriptor) (op : InodeSave) :
    Dated 20000 UInt64 AuditdFimInodeDescriptor :=
  d.put op.inode (op.apply d.entries)
    (fun _ hj => mem_of_mem_insertLimited (apply_eq op d.entries ▸ hj))
    (size_apply_le d.size_le)

/-- The entries that a new map has. -/
def initial : Dated 20000 UInt64 AuditdFimInodeDescriptor :=
  ([⟨0, .File, "stdin"⟩, ⟨1, .File, "stdout"⟩, ⟨2, .File, "stderr"⟩] : List InodeSave).foldl step
    .empty

structure Keeps (d : Dated 20000 UInt64 AuditdFimInodeDescriptor) (op : InodeSave) : Prop where
  present : (op.apply d.entries)[op.inode]? = some ⟨op.type, op.path⟩
  within : (op.apply d.entries).size ≤ 20000
  oldest : d.EvictsOldest op.inode (op.apply d.entries)

theorem keeps_iff_oldestDisplaced (d : Dated 20000 UInt64 AuditdFimInodeDescriptor)
    (op : InodeSave) : Keeps d op ↔ d.OldestDisplaced op.inode := by
  have hafter : ∀ j, j ∈ op.apply d.entries ↔
      j ∈ insertLimited 20000 d.entries op.inode ⟨op.type, op.path⟩ := fun j => by rw [apply_eq]
  have hkeeps : op.inode ∈ op.apply d.entries ∧
      d.EvictsOldest op.inode (op.apply d.entries) ↔ d.OldestDisplaced op.inode :=
    Dated.keeps_iff ⟨op.type, op.path⟩ hafter
  rw [← hkeeps]
  constructor
  · rintro ⟨hpresent, -, holdest⟩
    refine ⟨?_, holdest⟩
    rw [Std.ExtTreeMap.mem_iff_isSome_getElem?, hpresent]
    rfl
  · rintro ⟨hkept, holdest⟩
    refine ⟨?_, size_apply_le d.size_le, holdest⟩
    rw [apply_eq] at hkept ⊢
    apply getElem?_insertLimited_self
    intro hdisplaces
    exact (not_mem_insertLimited_iff _ (Or.inl rfl)).mpr hdisplaces hkept

end InodeSave

/-! ### Runs of saves -/

/-- In every run of saves each map keeps what was saved and removes the oldest entry exactly when
at every save the entry that is displaced is the oldest one, and no descriptor is saved over
another value. -/
theorem keepsSaved_iff (processes : List ProcessSave) (inodes : List InodeSave) :
    (Throughout ProcessSave.step ProcessSave.Keeps .empty processes ↔
        Throughout ProcessSave.step ProcessSave.Allowed .empty processes) ∧
      (Throughout InodeSave.step InodeSave.Keeps InodeSave.initial inodes ↔
        Throughout InodeSave.step (fun d op => d.OldestDisplaced op.inode) InodeSave.initial
          inodes) :=
  ⟨throughout_congr ProcessSave.keeps_iff_allowed _ _,
    throughout_congr InodeSave.keeps_iff_oldestDisplaced _ _⟩

/-- As many processes as are tracked, from the second on. -/
def laterProcesses : List ProcessSave :=
  (List.range 4096).map fun i : ℕ => ⟨3, (i : ℤ) + 2, 100, .Open⟩

/-- The entry of a process that comes before all the others is erased when it is saved. -/
theorem first_process_erased :
    ¬Throughout ProcessSave.step ProcessSave.Keeps .empty
      (laterProcesses ++ [⟨3, 1, 100, .Open⟩]) := by
  have hids : laterProcesses.map ProcessSave.process_id =
      (List.range 4096).map fun i : ℕ => (i : ℤ) + 2 := by
    rw [laterProcesses, List.map_map]
    rfl
  have hdistinct : (laterProcesses.map ProcessSave.process_id).Nodup := by
    rw [hids]
    refine List.Nodup.map (fun i j hij => ?_) List.nodup_range
    exact Int.ofNat_inj.mp (add_right_cancel hij)
  have hlength : laterProcesses.length = 4096 := by
    rw [laterProcesses, List.length_map, List.length_range]
  obtain ⟨hsize, hmem⟩ := ProcessSave.foldl_step_new laterProcesses .empty hdistinct
    (fun _ _ => Std.ExtTreeMap.not_mem_empty) (by rw [hlength, Dated.size_empty])
  have hlater : ∀ j ∈ (laterProcesses.foldl ProcessSave.step .empty).entries, (2 : ℤ) ≤ j := by
    intro j hj
    rcases (hmem j).mp hj with hj | hj
    · rw [hids, List.mem_map] at hj
      obtain ⟨i, -, rfl⟩ := hj
      omega
    · exact absurd hj Std.ExtTreeMap.not_mem_empty
  rw [throughout_append]
  rintro ⟨-, hkeeps, -⟩
  have holdest := ((ProcessSave.keeps_iff_allowed _ _).mp hkeeps).oldest 1
  have hnew : (1 : ℤ) ∉ (laterProcesses.foldl ProcessSave.step .empty).entries :=
    fun h => absurd (hlater 1 h) (by decide)
  have hhead := holdest ⟨Or.inr ⟨hnew, ?_⟩, Or.inl rfl, ?_, ?_⟩
  · exact hnew ((Dated.mem_created _ 1).mp (List.mem_of_mem_head? hhead))
  · rw [hsize, hlength, Dated.size_empty]
  · rw [Std.ReflOrd.compare_self]
    rfl
  · intro l hl
    have hle := hlater l hl
    rw [Std.isLE_compare]
    omega

end Osquery.FileEvents.TrackingLimits
