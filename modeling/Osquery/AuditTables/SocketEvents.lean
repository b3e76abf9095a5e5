import Osquery.AuditTables.ProcessEvents
import Osquery.Foundation.Hexadecimal
import Osquery.Foundation.TextSearch

/-!
# The table of socket events

The subscriber turns each completed event of a `bind` or `connect` call that has a socket
address into a row. The address is the hexadecimal dump of a structure, which is decoded by
its positions in the text: the port and the address of the internet families, and what
stands before the first `00` for sockets of the file system.

## Implementation notes

No result stands for an exception, which ends the process. A difference of positions is a
number of 64 bits. The locale maps the letters of ASCII.
-/

namespace Osquery.AuditTables

open EventPublishers Foundation.Numeral Foundation.Hexadecimal Foundation.TextSearch Core.Rows

def AUDIT_SOCKADDR : ℤ := 1306

def NR_connect : UInt64 := 42
def NR_bind : UInt64 := 49

/-- `std::string::substr` -/
def substr (s : List Char) (pos n : ℕ) : Option (List Char) :=
  if s.length < pos then none else some ((s.drop pos).take n)

/-- The difference of two sizes, which wraps around. -/
def sizeDifference (m n : ℕ) : ℕ := (m + 2 ^ 64 - n) % 2 ^ 64

/-- The character at a position, and a zero at the end. -/
def charAt (s : List Char) (i : ℕ) : Char := s.getD i (Char.ofNat 0)

/-- A number in the base 16, zero when there is none. -/
def longFromHex (text : List Char) : ℤ := (stol16 (String.ofList text)).toOption.getD 0

/-- `std::to_string` of a signed integer. -/
def longText (n : ℤ) : String := if n < 0 then "-" ++ toText n.natAbs else toText n.natAbs

def ip4FromSaddr (saddr : List Char) (offset : ℕ) : Option String := do
  let result := UInt64.ofInt (longFromHex (← substr saddr offset 8))
  return toText ((result &&& 0xff000000) >>> 24).toNat ++ "." ++
    (toText ((result &&& 0x00ff0000) >>> 16).toNat ++ "." ++
      (toText ((result &&& 0x0000ff00) >>> 8).toNat ++ "." ++
        toText (result &&& 0x000000ff).toNat))

/-- The eight groups, of which all but the last have a colon after them. -/
def ip6FromSaddr (saddr : List Char) : Option (List Char) := do
  let address ← (List.range 8).foldlM
    (fun address i => do
      let group ← substr saddr (16 + i * 4) 4
      return address ++ group ++ (if i = 0 ∨ i % 7 ≠ 0 then [':'] else [])) []
  return address.map Char.toLower

section Subscriber

variable (unhex : String → Option String) (uptime : String) (audit_allow_unix : Bool)

/-- The name of a socket of the file system. -/
def unixFromSaddr (saddr : List Char) : Option String := do
  let start := if charAt saddr 4 = '0' ∧ charAt saddr 5 = '0' then 6 else 4
  let stop := (find "00".toList (← substr saddr start saddr.length)).elim saddr.length (· + 4)
  let name ← substr saddr start (sizeDifference stop start)
  return (unhex (String.ofList name)).getD "unknown"

/-- The columns of the address and of the port, and the row with the other two. -/
def addressColumns (row : Row) : String × String × Row :=
  let row := row.insertIfNew "action" ""
  if row["action"]? = some "bind" then
    ("local_address", "local_port",
      (row.insert "remote_address" "0").insert "remote_port" "0")
  else
    ("remote_address", "remote_port",
      (row.insert "local_address" "0").insert "local_port" "0")

/-- The row with the address, and whether it is one of the file system; no row when the family
is not known. -/
def parseSockAddr (saddr : List Char) (row : Row) : Option (Option (Row × Bool)) :=
  let (address_column, port_column, row) := addressColumns row
  if charAt saddr 0 = '0' ∧ charAt saddr 1 = '2' then do
    let port ← substr saddr 4 4
    let address ← ip4FromSaddr saddr 8
    let row := (row.insert "family" "2").insert port_column (longText (longFromHex port))
    return some (row.insert address_column address, false)
  else if charAt saddr 0 = '0' ∧ charAt saddr 1 = 'A' then do
    let port ← substr saddr 4 4
    let address ← ip6FromSaddr saddr
    let row := (row.insert "family" "10").insert port_column (longText (longFromHex port))
    return some (row.insert address_column (String.ofList address), false)
  else if charAt saddr 0 = '0' ∧ charAt saddr 1 = '1' ∧ 6 < saddr.length then do
    let name ← unixFromSaddr unhex saddr
    return some ((row.insert "family" "1").insert "socket" name, true)
  else some none

/-- The name of the call, if it is one of the two. -/
def socketAction (syscall_number : UInt64) : Option String :=
  if syscall_number = NR_connect then some "connect"
  else if syscall_number = NR_bind then some "bind"
  else none

/-- The row before the address is parsed. -/
def socketColumns (action : String) (syscall : AuditEventRecord) : Option Row := do
  let row := (∅ : Row).insert "action" action
  let row := copyFieldFromMap row syscall.fields "auid" ""
  let row := copyFieldFromMap row syscall.fields "pid" ""
  let row := row.insert "fd" (getStringFieldFromMap syscall.fields "a0" "").1
  let row := row.insert "path" (decodeAuditPathValues unhex (← syscall.fields["exe"]?))
  let row := row.insert "fd" (← syscall.fields["a0"]?)
  let success ← syscall.fields["success"]?
  let row := row.insert "success" (if success = "yes" then "1" else "0")
  let row := row.insert "uptime" uptime
  return ((row.insert "protocol" "0").insert "local_port" "0").insert "remote_port" "0"

/-- The rows of a call with a socket address. -/
def socketRows (action : String) (syscall sockaddr : AuditEventRecord) : Option (List Row) :=
  let saddr := (getStringFieldFromMap sockaddr.fields "saddr" "").1.toList
  if saddr.length < 4 then some []
  else if charAt saddr 0 = '1' ∧ charAt saddr 1 = '0' then some []
  else do
    let row ← socketColumns unhex uptime action syscall
    match ← parseSockAddr unhex saddr row with
    | none => return []
    | some (row, unix_socket) => return if unix_socket && !audit_allow_unix then [] else [row]

/-- The rows of one event: none when it is passed over. -/
def socketEvent (event : AuditEvent) : Option (List Row) :=
  if event.type ≠ .syscall then some []
  else do
    let event_data ← getSyscallData event
    match socketAction event_data.syscall_number with
    | none => return []
    | some action =>
        match getEventRecord event AUDIT_SYSCALL, getEventRecord event AUDIT_SOCKADDR with
        | some syscall, some sockaddr =>
            socketRows unhex uptime audit_allow_unix action syscall sockaddr
        | _, _ => return []

/-- The rows of some events, if all of them are handled. -/
def socketEventList (event_list : List AuditEvent) : Option (List Row) :=
  (event_list.mapM (socketEvent unhex uptime audit_allow_unix)).map List.flatten

end Subscriber

end Osquery.AuditTables
