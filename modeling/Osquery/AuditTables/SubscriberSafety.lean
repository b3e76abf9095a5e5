import Osquery.AuditTables.SocketEvents
import Osquery.EventPublishers.AuditIdentity

/-!
# Which events the subscribers survive

The publisher emits a call only with its executable, but it supplies a default for the
status, does not look at the first argument and does not read socket addresses. The
subscriber of processes handles every event that is emitted. The one of sockets handles a
call with a socket address exactly when the record of the call has both fields and the
address has the length that its family needs.
-/

namespace Osquery.AuditTables

open EventPublishers Foundation.Numeral Foundation.Hexadecimal Foundation.TextSearch Core.Rows

/-! ### Lists of events -/

/-- Some events are handled when each of them is. -/
theorem isSome_mapM_flatten_iff {α β : Type} (f : α → Option (List β)) (l : List α) :
    ((l.mapM f).map List.flatten).isSome ↔ ∀ a ∈ l, (f a).isSome := by
  rw [Option.isSome_map]
  induction l with
  | nil => simp
  | cons a l ih =>
      rw [List.mapM_cons, List.forall_mem_cons, ← ih]
      cases f a with
      | none => simp
      | some b =>
          cases l.mapM f with
          | none => simp
          | some bs => simp

/-! ### Socket addresses -/

theorem isSome_substr_iff {s : List Char} {pos n : ℕ} :
    (substr s pos n).isSome ↔ pos ≤ s.length := by
  rw [substr]
  split
  · next h => simpa using h
  · next h => simpa using h

theorem isSome_ip4FromSaddr_iff {saddr : List Char} {offset : ℕ} :
    (ip4FromSaddr saddr offset).isSome ↔ offset ≤ saddr.length := by
  rw [← @isSome_substr_iff saddr offset 8, ip4FromSaddr]
  cases substr saddr offset 8 with
  | none => rfl
  | some part => exact iff_of_true rfl rfl

/-- A loop over groups is finished when each of them is in the text. -/
theorem isSome_foldlM_groups {saddr : List Char} (add : List Char → ℕ → List Char → List Char)
    (indices : List ℕ) (address : List Char) :
    (indices.foldlM (fun address i => do
        let group ← substr saddr (16 + i * 4) 4
        return add address i group) address).isSome ↔
      ∀ i ∈ indices, 16 + i * 4 ≤ saddr.length := by
  induction indices generalizing address with
  | nil => simp
  | cons i indices ih =>
      rw [List.foldlM_cons, List.forall_mem_cons, ← @isSome_substr_iff saddr (16 + i * 4) 4]
      cases substr saddr (16 + i * 4) 4 with
      | none => simp
      | some group => simpa using ih (add address i group)

theorem isSome_ip6FromSaddr_iff {saddr : List Char} :
    (ip6FromSaddr saddr).isSome ↔ 44 ≤ saddr.length := by
  have hgroups := @isSome_foldlM_groups saddr
    (fun address i group => address ++ group ++ (if i = 0 ∨ i % 7 ≠ 0 then [':'] else []))
    (List.range 8) []
  have hbound : (∀ i ∈ List.range 8, 16 + i * 4 ≤ saddr.length) ↔ 44 ≤ saddr.length := by
    constructor
    · intro h
      exact h 7 (by decide)
    · intro h i hi
      rw [List.mem_range] at hi
      omega
  rw [ip6FromSaddr, ← hbound, ← hgroups, bind_pure_comp, Option.map_eq_map, Option.isSome_map]

theorem isSome_unixFromSaddr {unhex : String → Option String} {saddr : List Char}
    (h : 6 < saddr.length) : (unixFromSaddr unhex saddr).isSome := by
  have hstart : (if charAt saddr 4 = '0' ∧ charAt saddr 5 = '0' then 6 else 4) ≤ saddr.length := by
    split
    · omega
    · omega
  have hpart : ∀ n, ∃ part, substr saddr
      (if charAt saddr 4 = '0' ∧ charAt saddr 5 = '0' then 6 else 4) n = some part :=
    fun n => Option.isSome_iff_exists.mp (isSome_substr_iff.mpr hstart)
  obtain ⟨rest, hrest⟩ := hpart saddr.length
  obtain ⟨name, hname⟩ := hpart (sizeDifference
    ((find "00".toList rest).elim saddr.length (· + 4))
    (if charAt saddr 4 = '0' ∧ charAt saddr 5 = '0' then 6 else 4))
  simp only [unixFromSaddr, hrest, hname, Option.bind_eq_bind, Option.bind_some]
  rfl

/-- The text is as long as the family needs. -/
structure LongEnough (saddr : List Char) : Prop where
  ip4 : charAt saddr 0 = '0' → charAt saddr 1 = '2' → 8 ≤ saddr.length
  ip6 : charAt saddr 0 = '0' → charAt saddr 1 = 'A' → 44 ≤ saddr.length

theorem isSome_parseSockAddr_iff (unhex : String → Option String) {saddr : List Char}
    (h : 4 ≤ saddr.length) (row : Row) :
    (parseSockAddr unhex saddr row).isSome ↔ LongEnough saddr := by
  obtain ⟨port, hport⟩ := Option.isSome_iff_exists.mp (@isSome_substr_iff saddr 4 4 |>.mpr h)
  rw [parseSockAddr]
  simp only [hport, Option.bind_eq_bind, Option.bind_some]
  split
  · next hip4 =>
      have hlong : LongEnough saddr ↔ 8 ≤ saddr.length := by
        constructor
        · exact fun henough => henough.ip4 hip4.1 hip4.2
        · refine fun hlength => ⟨fun _ _ => hlength, fun _ hip6 => ?_⟩
          rw [hip4.2] at hip6
          cases hip6
      rw [hlong, ← isSome_ip4FromSaddr_iff]
      cases ip4FromSaddr saddr 8 with
      | none => rfl
      | some address => exact iff_of_true rfl rfl
  · next hip4 =>
      split
      · next hip6 =>
          have hlong : LongEnough saddr ↔ 44 ≤ saddr.length := by
            constructor
            · exact fun henough => henough.ip6 hip6.1 hip6.2
            · exact fun hlength =>
                ⟨fun hfirst hsecond => absurd ⟨hfirst, hsecond⟩ hip4, fun _ _ => hlength⟩
          rw [hlong, ← isSome_ip6FromSaddr_iff]
          cases ip6FromSaddr saddr with
          | none => rfl
          | some address => exact iff_of_true rfl rfl
      · next hip6 =>
          have hlong : LongEnough saddr :=
            ⟨fun hfirst hsecond => absurd ⟨hfirst, hsecond⟩ hip4,
              fun hfirst hsecond => absurd ⟨hfirst, hsecond⟩ hip6⟩
          refine iff_of_true ?_ hlong
          split
          · next hunix =>
              obtain ⟨name, hname⟩ := Option.isSome_iff_exists.mp
                (@isSome_unixFromSaddr unhex saddr hunix.2.2)
              rw [hname]
              rfl
          · rfl

/-! ### Events -/

section Events

variable {unhex : String → Option String} {executable_path : String}

theorem isSome_socketColumns_iff (uptime action : String) (syscall : AuditEventRecord) :
    (socketColumns unhex uptime action syscall).isSome ↔
      syscall.fields["exe"]?.isSome ∧ syscall.fields["a0"]?.isSome ∧
        syscall.fields["success"]?.isSome := by
  rw [socketColumns]
  cases syscall.fields["exe"]? with
  | none => simp
  | some exe =>
      cases syscall.fields["a0"]? with
      | none => simp
      | some a0 =>
          cases syscall.fields["success"]? with
          | none => simp
          | some success => exact iff_of_true rfl ⟨rfl, rfl, rfl⟩

/-- The address of a record is one that is parsed: four digits, and not of a `NETLINK_ROUTE`
socket. -/
def IsParsed (saddr : List Char) : Prop :=
  4 ≤ saddr.length ∧ ¬(charAt saddr 0 = '1' ∧ charAt saddr 1 = '0')

/-- The text of the address of a record. -/
def saddrOf (sockaddr : AuditEventRecord) : List Char :=
  (getStringFieldFromMap sockaddr.fields "saddr" "").1.toList

theorem isSome_socketRows_iff (uptime : String) (audit_allow_unix : Bool) (action : String)
    (syscall sockaddr : AuditEventRecord) (hexe : syscall.fields["exe"]?.isSome) :
    (socketRows unhex uptime audit_allow_unix action syscall sockaddr).isSome ↔
      (IsParsed (saddrOf sockaddr) →
        (syscall.fields["a0"]?.isSome ∧ syscall.fields["success"]?.isSome) ∧
          LongEnough (saddrOf sockaddr)) := by
  rw [socketRows]
  change (if (saddrOf sockaddr).length < 4 then some []
    else if charAt (saddrOf sockaddr) 0 = '1' ∧ charAt (saddrOf sockaddr) 1 = '0' then some []
    else _).isSome ↔ _
  split
  · next hshort => exact iff_of_true rfl fun hparsed => absurd hparsed.1 (by omega)
  · next hlong =>
      split
      · next hroute => exact iff_of_true rfl fun hparsed => absurd hroute hparsed.2
      · next hroute =>
          have hparsed : IsParsed (saddrOf sockaddr) := ⟨by omega, hroute⟩
          have hcolumns := @isSome_socketColumns_iff unhex uptime action syscall
          rw [and_iff_right hexe] at hcolumns
          rw [forall_prop_of_true hparsed, ← hcolumns]
          cases socketColumns unhex uptime action syscall with
          | none => simp
          | some row =>
              rw [← isSome_parseSockAddr_iff unhex hparsed.1 row, Option.isSome_some,
                and_iff_right rfl]
              change ((parseSockAddr unhex (saddrOf sockaddr) row).bind _).isSome ↔ _
              cases parseSockAddr unhex (saddrOf sockaddr) row with
              | none => rfl
              | some parsed =>
                  refine iff_of_true ?_ rfl
                  cases parsed with
                  | none => rfl
                  | some shown => rfl

/-- The records of a call on sockets with an address that is parsed have what is taken from
them. -/
def SocketReady (event : AuditEvent) : Prop :=
  ∀ data syscall sockaddr, event.data = .syscall data →
    data.syscall_number = NR_bind ∨ data.syscall_number = NR_connect →
      getEventRecord event AUDIT_SYSCALL = some syscall →
        getEventRecord event AUDIT_SOCKADDR = some sockaddr → IsParsed (saddrOf sockaddr) →
          (syscall.fields["a0"]?.isSome ∧ syscall.fields["success"]?.isSome) ∧
            LongEnough (saddrOf sockaddr)

theorem isSome_socketAction_iff {number : UInt64} :
    (socketAction number).isSome ↔ number = NR_bind ∨ number = NR_connect := by
  rw [socketAction]
  split
  · next hconnect => exact iff_of_true rfl (Or.inr hconnect)
  · next hconnect =>
      split
      · next hbind => exact iff_of_true rfl (Or.inl hbind)
      · next hbind => exact iff_of_false (by simp) fun h => h.elim hbind hconnect

/-- The record of the call of an opened event is the first one. -/
theorem getEventRecord_of_opened {audit_id : String} {event : AuditEvent}
    (h : Opened unhex executable_path audit_id event) :
    ∃ data syscall, event.type = .syscall ∧ event.data = .syscall data ∧
      getEventRecord event AUDIT_SYSCALL = some syscall ∧
      syscall.fields["exe"]?.isSome := by
  obtain ⟨record, data, attached, rfl, htype, hdata, _⟩ := h
  refine ⟨data, record, rfl, rfl, ?_, ?_⟩
  · rw [getEventRecord]
    exact List.find?_cons_of_pos (by simpa using htype)
  · have hcall := (carriesCall_of_syscallData hdata).1.exe
    rw [← Option.isSome_map, hcall]
    rfl

theorem isSome_socketEvent_iff (uptime : String) (audit_allow_unix : Bool) {event : AuditEvent}
    (h : Formed unhex executable_path event) :
    (socketEvent unhex uptime audit_allow_unix event).isSome ↔
      (event.type = .syscall → SocketReady event) := by
  cases h with
  | user number record => exact iff_of_true rfl fun htype => by cases htype
  | selinux record => exact iff_of_true rfl fun htype => by cases htype
  | syscall hopened =>
      obtain ⟨data, syscall, htype, hdata, hsyscall, hexe⟩ := getEventRecord_of_opened hopened
      rw [forall_prop_of_true htype, socketEvent, if_neg (not_not.mpr htype), getSyscallData, hdata]
      simp only [Option.bind_eq_bind, Option.bind_some]
      have haction := @isSome_socketAction_iff data.syscall_number
      cases hname : socketAction data.syscall_number with
      | none =>
          refine iff_of_true rfl ?_
          intro data' _ _ hdata' hnumber _ _ _
          rw [hdata] at hdata'
          obtain rfl := AuditEventData.syscall.inj hdata'
          rw [← haction, hname] at hnumber
          cases hnumber
      | some action =>
          rw [hname] at haction
          cases hsockaddr : getEventRecord event AUDIT_SOCKADDR with
          | none =>
              rw [hsyscall]
              refine iff_of_true rfl ?_
              intro _ _ sockaddr _ _ _ hsome _
              rw [hsockaddr] at hsome
              cases hsome
          | some sockaddr =>
              rw [hsyscall]
              dsimp only
              rw [isSome_socketRows_iff uptime audit_allow_unix action syscall sockaddr hexe]
              constructor
              · intro hready data' syscall' sockaddr' _ _ hsyscall' hsockaddr' hparsed
                rw [hsyscall] at hsyscall'
                rw [hsockaddr] at hsockaddr'
                obtain rfl := Option.some.inj hsyscall'
                obtain rfl := Option.some.inj hsockaddr'
                exact hready hparsed
              · intro hready hparsed
                exact hready data syscall sockaddr hdata (haction.mp rfl) hsyscall hsockaddr hparsed

/-- The subscriber of processes handles every event that the publisher forms. -/
theorem isSome_processEvent {file : String → QueryData} (hfile : HasTimes file) (uptime : String)
    {event : AuditEvent} (h : Formed unhex executable_path event) :
    (processEvent unhex file uptime event).isSome := by
  cases h with
  | user number record => rfl
  | selinux record => rfl
  | syscall hopened =>
      obtain ⟨data, syscall, htype, hdata, hsyscall, _⟩ := getEventRecord_of_opened hopened
      rw [processEvent, if_neg (not_not.mpr htype), getSyscallData, hdata]
      simp only [Option.bind_eq_bind, Option.bind_some]
      split
      · rfl
      · split
        · next syscall execve first_path cwd _ _ _ _ =>
            obtain ⟨row, hrow, _⟩ :=
              execveRow_cmdline unhex hfile uptime syscall execve first_path cwd
            rw [hrow]
            rfl
        · rfl

/-- Both subscribers handle everything that the publisher emits exactly when every call on
sockets with an address has what is taken from its records. -/
theorem subscribers_survive_iff {file : String → QueryData} (hfile : HasTimes file)
    (uptime : String) (audit_allow_unix : Bool) (batches : List (ℤ × List AuditEventRecord)) :
    ((socketEventList unhex uptime audit_allow_unix
          (processBatches unhex executable_path batches ∅).1).isSome ∧
        (processEventList unhex file uptime
          (processBatches unhex executable_path batches ∅).1).isSome) ↔
      ∀ event ∈ (processBatches unhex executable_path batches ∅).1,
        event.type = .syscall → SocketReady event := by
  have hformed := @formed_of_emitted unhex executable_path batches ∅ (by simp)
  rw [socketEventList, isSome_mapM_flatten_iff, processEventList, isSome_mapM_flatten_iff]
  have hprocess : ∀ event ∈ (processBatches unhex executable_path batches ∅).1,
      (processEvent unhex file uptime event).isSome :=
    fun event hevent => isSome_processEvent hfile uptime (hformed event hevent)
  rw [and_iff_left hprocess]
  exact forall₂_congr fun event hevent =>
    isSome_socketEvent_iff uptime audit_allow_unix (hformed event hevent)

end Events

/-! ### Two addresses -/

def connectFields : Std.ExtTreeMap String String :=
  Std.ExtTreeMap.ofList [("exe", "\"/bin/nc\""), ("syscall", "42"), ("success", "yes"),
    ("a0", "3"), ("pid", "7"), ("ppid", "1"), ("uid", "0"), ("euid", "0"), ("gid", "0"),
    ("egid", "0")]

/-- The records of a call with a socket address. -/
def connectRecords (saddr : String) : List AuditEventRecord :=
  [⟨AUDIT_SYSCALL, 0, "1501323932.710:1", connectFields, ""⟩,
    ⟨AUDIT_SOCKADDR, 0, "1501323932.710:1", Std.ExtTreeMap.ofList [("saddr", saddr)], ""⟩,
    ⟨AUDIT_EOE, 0, "1501323932.710:1", ∅, ""⟩]

theorem subscribers_survive_iff_connect :
    ((socketEventList decodeText "0" true
          (processBatches decodeText "/usr/bin/osqueryd"
            [(1501323933, connectRecords "020000507F000001")] ∅).1).isSome ∧
        (processEventList decodeText (fun _ => []) "0"
          (processBatches decodeText "/usr/bin/osqueryd"
            [(1501323933, connectRecords "020000507F000001")] ∅).1).isSome) ↔
      ∀ event ∈ (processBatches decodeText "/usr/bin/osqueryd"
          [(1501323933, connectRecords "020000507F000001")] ∅).1,
        event.type = .syscall → SocketReady event :=
  subscribers_survive_iff noFiles_hasTimes "0" true
    [(1501323933, connectRecords "020000507F000001")]

/-- The family of an address without the address ends the process. -/
theorem short_address_throws :
    ¬∀ batches : List (ℤ × List AuditEventRecord),
      (socketEventList decodeText "0" true
          (processBatches decodeText "/usr/bin/osqueryd" batches ∅).1).isSome ∧
        (processEventList decodeText (fun _ => []) "0"
          (processBatches decodeText "/usr/bin/osqueryd" batches ∅).1).isSome := by
  intro hall
  have hhandled := (hall [(1501323933, connectRecords "0200")]).1
  revert hhandled
  decide +kernel

end Osquery.AuditTables
