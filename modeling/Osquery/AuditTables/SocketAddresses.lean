import Osquery.AuditTables.SocketEvents

/-!
# Decoded socket addresses

Internet addresses and ports are decoded from every dump. The end of the name of a socket of
the file system is found by a search for `00` in the text, which need not begin at a byte: it
also finds a byte that ends in the digit zero before one that begins with it. A pathname is
decoded when there is no such place before its end and the dump has more than one byte of
name and padding; an abstract name only without padding, because the end is taken relative
to the wrong position.

## Implementation notes

A dump is a list of bytes and has a size of 64 bits as a text. Padding is zeros after a name.
-/

namespace Osquery.AuditTables

open Foundation Foundation.Numeral Foundation.Separated Foundation.Hexadecimal
  Foundation.TextSearch Core.Rows

/-! ### Addresses -/

structure Ip4 where
  port : UInt16
  a : UInt8
  b : UInt8
  c : UInt8
  d : UInt8
  zero : List UInt8

structure Ip6 where
  port : UInt16
  flowinfo : List UInt8
  groups : List (UInt8 × UInt8)
  scope_id : List UInt8
  flowinfo_length : flowinfo.length = 4
  groups_length : groups.length = 8

/-- The name of a socket with padding. -/
structure UnixName where
  name : List UInt8
  padding : ℕ
  nonempty : name ≠ []
  no_zero : 0 ∉ name
  fits : 2 * (3 + name.length + padding) < 2 ^ 64

inductive SockAddr
  | ip4 (address : Ip4)
  | ip6 (address : Ip6)
  | path (name : UnixName)
  | abstractName (name : UnixName)

def UnixName.padded (name : UnixName) : List UInt8 := name.name ++ List.replicate name.padding 0

def SockAddr.dump : SockAddr → List UInt8
  | .ip4 address =>
      [2, 0] ++ (BigEndian.bytes 2 address.port.toNat ++
        ([address.a, address.b, address.c, address.d] ++ address.zero))
  | .ip6 address =>
      [10, 0] ++ (BigEndian.bytes 2 address.port.toNat ++
        (address.flowinfo ++ (address.groups.flatMap (fun g => [g.1, g.2]) ++ address.scope_id)))
  | .path name => [1, 0] ++ name.padded
  | .abstractName name => [1, 0, 0] ++ name.padded

def SockAddr.saddr (address : SockAddr) : List Char := hexText address.dump

/-- Four decimal numbers with dots. -/
def Ip4.text (address : Ip4) : String :=
  toText address.a.toNat ++ "." ++ (toText address.b.toNat ++ "." ++
    (toText address.c.toNat ++ "." ++ toText address.d.toNat))

/-- Eight groups of four lower-case digits with colons. -/
def Ip6.text (address : Ip6) : String :=
  join (address.groups.map fun g => String.ofList ((hexText [g.1, g.2]).map Char.toLower)) ":"

/-- What a row says of an address in the columns that belong to the action. -/
def SockAddr.ShownIn (address : SockAddr) (row : Row) (result : Row) : Prop :=
  let address_column := (addressColumns row).1
  let port_column := (addressColumns row).2.1
  match address with
  | .ip4 address =>
      result["family"]? = some "2" ∧ result[port_column]? = some (toText address.port.toNat) ∧
        result[address_column]? = some address.text
  | .ip6 address =>
      result["family"]? = some "10" ∧ result[port_column]? = some (toText address.port.toNat) ∧
        result[address_column]? = some address.text
  | .path name => result["family"]? = some "1" ∧ result["socket"]? = some (bytesText name.name)
  | .abstractName name =>
      result["family"]? = some "1" ∧ result["socket"]? = some (bytesText name.name)

def SockAddr.isUnix : SockAddr → Bool
  | .ip4 _ | .ip6 _ => false
  | .path _ | .abstractName _ => true

/-- The dump of an address is decoded into a row that says what it is. -/
def Faithful (unhex : String → Option String) (address : SockAddr) (row : Row) : Prop :=
  ∃ result, parseSockAddr unhex address.saddr row = some (some (result, address.isUnix)) ∧
    address.ShownIn row result

/-- The digits of two bytes have `00` in the middle. -/
def Straddles (b c : UInt8) : Prop := b.toNat % 16 = 0 ∧ c.toNat / 16 = 0

instance (b c : UInt8) : Decidable (Straddles b c) := inferInstanceAs (Decidable (_ ∧ _))

/-- The first two bytes have `00` in the middle. -/
def StartsStraddled : List UInt8 → Prop
  | b :: c :: _ => Straddles b c
  | _ => False

instance : ∀ bytes, Decidable (StartsStraddled bytes)
  | [] | [_] => inferInstanceAs (Decidable False)
  | b :: c :: _ => inferInstanceAs (Decidable (Straddles b c))

/-- No two neighbours have `00` in the middle. -/
def Apart (bytes : List UInt8) : Prop := bytes.IsChain fun b c => ¬Straddles b c

instance (bytes : List UInt8) : Decidable (Apart bytes) :=
  inferInstanceAs (Decidable (bytes.IsChain _))

/-- A name and the first zero of its padding. -/
def UnixName.terminated (name : UnixName) : List UInt8 :=
  name.name ++ List.replicate (min name.padding 1) 0

def SockAddr.Decodable : SockAddr → Prop
  | .ip4 _ | .ip6 _ => True
  | .path name => 2 ≤ name.name.length + name.padding ∧ Apart name.terminated
  | .abstractName name =>
      name.padding = 0 ∧ (Apart name.name ∨ StartsStraddled name.name)

/-! ### Parts of a dump -/

theorem substr_hexText {bytes : List UInt8} {i : ℕ} (h : i ≤ bytes.length) (n : ℕ) :
    substr (hexText bytes) (2 * i) (2 * n) = some (hexText ((bytes.drop i).take n)) := by
  rw [substr, if_neg (by rw [length_hexText]; omega), hexText_drop, hexText_take]

theorem longFromHex_hexText {bytes : List UInt8} (hne : bytes ≠ []) (hshort : bytes.length ≤ 7) :
    longFromHex (hexText bytes) = BigEndian.value bytes := by
  have htext : (String.ofList (hexText bytes)).toList = hexText bytes := String.toList_ofList
  have hlt : BigEndian.value bytes < 2 ^ 63 := by
    calc BigEndian.value bytes
        < 256 ^ bytes.length := BigEndian.value_lt bytes
      _ ≤ 256 ^ 7 := Nat.pow_le_pow_right (by decide) hshort
      _ < 2 ^ 63 := by decide
  have hread := @stol16_of_digits (String.ofList (hexText bytes))
    (by
      rw [htext]
      obtain ⟨b, rest, rfl⟩ := List.exists_cons_of_ne_nil hne
      exact List.cons_ne_nil _ _)
    (by
      rw [htext]
      intro c hc
      obtain ⟨n, hn, rfl⟩ := exists_of_mem_hexText hc
      exact isHexDigit_hexDigit hn)
    (by rw [htext, ofHexDigits_hexText]; exact hlt)
  rw [longFromHex, hread, htext, ofHexDigits_hexText]
  rfl

theorem longText_natCast (n : ℕ) : longText n = toText n := by
  rw [longText, if_neg (by omega), Int.natAbs_natCast]

/-- One byte of a number of four. -/
theorem masked_toNat (n mask shift : ℕ) (hn : n < 2 ^ 32) (hshift : shift < 64)
    (hmask : mask < 2 ^ 64) (hbyte : mask >>> shift = 2 ^ 8 - 1) :
    ((UInt64.ofNat n &&& UInt64.ofNat mask) >>> UInt64.ofNat shift).toNat =
      n / 2 ^ shift % 256 := by
  have hn' : n % 2 ^ 64 = n := Nat.mod_eq_of_lt (by omega)
  have hshift' : shift % 2 ^ 64 % 64 = shift := by omega
  rw [UInt64.toNat_shiftRight, UInt64.toNat_and, UInt64.toNat_ofNat', UInt64.toNat_ofNat',
    UInt64.toNat_ofNat', hn', Nat.mod_eq_of_lt hmask, hshift', Nat.shiftRight_and_distrib, hbyte,
    Nat.and_two_pow_sub_one_eq_mod, Nat.shiftRight_eq_div_pow]

theorem ip4FromSaddr_hexText {bytes : List UInt8} {a b c d : UInt8} {rest : List UInt8}
    (h : bytes.drop 4 = a :: b :: c :: d :: rest) :
    ip4FromSaddr (hexText bytes) 8 =
      some (toText a.toNat ++ "." ++ (toText b.toNat ++ "." ++
        (toText c.toNat ++ "." ++ toText d.toNat))) := by
  have hlength := congrArg List.length h
  rw [List.length_drop, List.length_cons] at hlength
  have hpart : substr (hexText bytes) 8 8 = some (hexText [a, b, c, d]) := by
    rw [substr_hexText (i := 4) (n := 4) (by omega), h]
    rfl
  have ha := a.toNat_lt
  have hb := b.toNat_lt
  have hc := c.toNat_lt
  have hd := d.toNat_lt
  have hvalue : BigEndian.value [a, b, c, d] =
      ((a.toNat * 256 + b.toNat) * 256 + c.toNat) * 256 + d.toNat := by
    simp [BigEndian.value]
  have hlong : UInt64.ofInt (longFromHex (hexText [a, b, c, d])) =
      UInt64.ofNat (((a.toNat * 256 + b.toNat) * 256 + c.toNat) * 256 + d.toNat) := by
    rw [longFromHex_hexText (by simp) (by simp), hvalue, ofInt_natCast]
  rw [ip4FromSaddr, hpart]
  simp only [Option.bind_eq_bind, Option.bind_some, hlong]
  generalize hn : ((a.toNat * 256 + b.toNat) * 256 + c.toNat) * 256 + d.toNat = n
  have hsmall : n < 2 ^ 32 := by omega
  have hfirst : ((UInt64.ofNat n &&& 0xff000000) >>> 24).toNat = a.toNat :=
    (masked_toNat n 0xff000000 24 hsmall (by decide) (by decide) (by decide)).trans (by omega)
  have hsecond : ((UInt64.ofNat n &&& 0x00ff0000) >>> 16).toNat = b.toNat :=
    (masked_toNat n 0x00ff0000 16 hsmall (by decide) (by decide) (by decide)).trans (by omega)
  have hthird : ((UInt64.ofNat n &&& 0x0000ff00) >>> 8).toNat = c.toNat :=
    (masked_toNat n 0x0000ff00 8 hsmall (by decide) (by decide) (by decide)).trans (by omega)
  have hfourth : (UInt64.ofNat n &&& 0x000000ff).toNat = d.toNat := by
    have hzero := masked_toNat n 0x000000ff 0 hsmall (by decide) (by decide) (by decide)
    rw [UInt64.toNat_shiftRight] at hzero
    exact hzero.trans (by omega)
  rw [hfirst, hsecond, hthird, hfourth]
  rfl

theorem pairs_drop (groups : List (UInt8 × UInt8)) (i : ℕ) :
    (groups.flatMap fun g => [g.1, g.2]).drop (2 * i) =
      (groups.drop i).flatMap fun g => [g.1, g.2] := by
  induction groups generalizing i with
  | nil => simp
  | cons g groups ih =>
      cases i with
      | zero => rfl
      | succ i => exact ih i

theorem length_pairs (groups : List (UInt8 × UInt8)) :
    (groups.flatMap fun g => [g.1, g.2]).length = 2 * groups.length := by
  induction groups with
  | nil => rfl
  | cons g groups ih =>
      rw [List.flatMap_cons, List.length_append, ih, List.length_cons]
      simp only [List.length_cons, List.length_nil]
      omega

/-- The digits of one group. -/
theorem substr_group {bytes rest : List UInt8} {groups : List (UInt8 × UInt8)}
    (h : bytes.drop 8 = groups.flatMap (fun g => [g.1, g.2]) ++ rest) {i : ℕ}
    (hi : i < groups.length) :
    substr (hexText bytes) (16 + i * 4) 4 = some (hexText [groups[i].1, groups[i].2]) := by
  have hlength := congrArg List.length h
  rw [List.length_drop, List.length_append, length_pairs] at hlength
  have hpos : 16 + i * 4 = 2 * (8 + 2 * i) := by omega
  have hdrop : bytes.drop (8 + 2 * i) =
      groups[i].1 :: groups[i].2 ::
        ((groups.drop (i + 1)).flatMap (fun g => [g.1, g.2]) ++ rest) := by
    rw [← List.drop_drop, h, List.drop_append_of_le_length (by rw [length_pairs]; omega),
      pairs_drop, List.drop_eq_getElem_cons hi]
    rfl
  rw [hpos, substr_hexText (n := 2) (by omega), hdrop]
  rfl

theorem exists_eight {α : Type*} : ∀ {l : List α}, l.length = 8 →
    ∃ a b c d e f g h, l = [a, b, c, d, e, f, g, h]
  | [a, b, c, d, e, f, g, h], _ => ⟨a, b, c, d, e, f, g, h, rfl⟩

theorem ip6FromSaddr_hexText {bytes rest : List UInt8} {groups : List (UInt8 × UInt8)}
    (h : bytes.drop 8 = groups.flatMap (fun g => [g.1, g.2]) ++ rest)
    (hgroups : groups.length = 8) :
    ip6FromSaddr (hexText bytes) =
      some (join (groups.map fun g =>
        String.ofList ((hexText [g.1, g.2]).map Char.toLower)) ":").toList := by
  have hgroup : ∀ (i : ℕ) (hi : i < groups.length), substr (hexText bytes) (16 + i * 4) 4 =
      some (hexText [groups[i].1, groups[i].2]) := fun i hi => substr_group h hi
  obtain ⟨g₀, g₁, g₂, g₃, g₄, g₅, g₆, g₇, rfl⟩ := exists_eight hgroups
  have hrange : List.range 8 = [0, 1, 2, 3, 4, 5, 6, 7] := by decide
  have hcolon : ':'.toLower = ':' := by decide
  rw [ip6FromSaddr, hrange]
  simp only [List.foldlM_cons, List.foldlM_nil]
  rw [hgroup 0 (by simp), hgroup 1 (by simp), hgroup 2 (by simp), hgroup 3 (by simp),
    hgroup 4 (by simp), hgroup 5 (by simp), hgroup 6 (by simp), hgroup 7 (by simp)]
  simp [join, hcolon]

/-! ### Internet addresses -/

theorem addressColumns_eq (row : Row) :
    ((addressColumns row).1 = "local_address" ∧ (addressColumns row).2.1 = "local_port") ∨
      ((addressColumns row).1 = "remote_address" ∧ (addressColumns row).2.1 = "remote_port") := by
  rw [addressColumns]
  split
  · left
    exact ⟨rfl, rfl⟩
  · right
    exact ⟨rfl, rfl⟩

/-- The three columns of an internet address are different. -/
theorem inserted_columns (row start : Row) (family port address : String) :
    let result := ((start.insert "family" family).insert (addressColumns row).2.1 port).insert
      (addressColumns row).1 address
    result["family"]? = some family ∧ result[(addressColumns row).2.1]? = some port ∧
      result[(addressColumns row).1]? = some address := by
  obtain ⟨haddress, hport⟩ | ⟨haddress, hport⟩ := addressColumns_eq row
  all_goals
    rw [haddress, hport]
    refine ⟨?_, ?_, ?_⟩
    · rw [getElem?_insert_of_ne (by decide), getElem?_insert_of_ne (by decide),
        Std.ExtTreeMap.getElem?_insert_self]
    · rw [getElem?_insert_of_ne (by decide), Std.ExtTreeMap.getElem?_insert_self]
    · rw [Std.ExtTreeMap.getElem?_insert_self]

theorem port_hexText {bytes rest : List UInt8} {port : UInt16}
    (h : bytes.drop 2 = BigEndian.bytes 2 port.toNat ++ rest) :
    ∃ digits, substr (hexText bytes) 4 4 = some digits ∧
      longText (longFromHex digits) = toText port.toNat := by
  have hwidth := BigEndian.length_bytes 2 port.toNat
  have hlength := congrArg List.length h
  rw [List.length_drop, List.length_append, hwidth] at hlength
  use hexText (BigEndian.bytes 2 port.toNat)
  constructor
  · rw [substr_hexText (i := 2) (n := 2) (by omega), h, List.take_left' hwidth]
  · rw [longFromHex_hexText (List.ne_nil_of_length_pos (by omega)) (by omega),
      BigEndian.value_bytes_of_lt port.toNat_lt, longText_natCast]

theorem faithful_ip4 (unhex : String → Option String) (address : Ip4) (row : Row) :
    Faithful unhex (.ip4 address) row := by
  obtain ⟨digits, hdigits, hport⟩ :=
    @port_hexText (SockAddr.ip4 address).dump
      ([address.a, address.b, address.c, address.d] ++ address.zero) address.port rfl
  have haddress := @ip4FromSaddr_hexText (SockAddr.ip4 address).dump address.a address.b address.c
    address.d address.zero rfl
  have hfamily : charAt (hexText (SockAddr.ip4 address).dump) 0 = '0' ∧
      charAt (hexText (SockAddr.ip4 address).dump) 1 = '2' := by
    exact ⟨rfl, rfl⟩
  refine ⟨_, ?_, inserted_columns row (addressColumns row).2.2 "2" (toText address.port.toNat)
    address.text⟩
  rw [parseSockAddr, SockAddr.saddr]
  simp only [if_pos hfamily, hdigits, haddress, Option.bind_eq_bind, Option.bind_some, hport]
  rfl

theorem faithful_ip6 (unhex : String → Option String) (address : Ip6) (row : Row) :
    Faithful unhex (.ip6 address) row := by
  obtain ⟨digits, hdigits, hport⟩ :=
    @port_hexText (SockAddr.ip6 address).dump _ address.port rfl
  have hdrop : (SockAddr.ip6 address).dump.drop 8 =
      address.groups.flatMap (fun g => [g.1, g.2]) ++ address.scope_id := by
    rw [SockAddr.dump, ← List.append_assoc, ← List.append_assoc]
    apply List.drop_left'
    rw [List.length_append, List.length_append, BigEndian.length_bytes, address.flowinfo_length]
    rfl
  have haddress := ip6FromSaddr_hexText hdrop address.groups_length
  have hipv4 : ¬(charAt (hexText (SockAddr.ip6 address).dump) 0 = '0' ∧
      charAt (hexText (SockAddr.ip6 address).dump) 1 = '2') := by
    rintro ⟨_, hdigit⟩
    exact absurd hdigit (by decide : hexDigit 10 ≠ '2')
  have hfamily : charAt (hexText (SockAddr.ip6 address).dump) 0 = '0' ∧
      charAt (hexText (SockAddr.ip6 address).dump) 1 = 'A' := by
    exact ⟨rfl, rfl⟩
  refine ⟨_, ?_, inserted_columns row (addressColumns row).2.2 "10" (toText address.port.toNat)
    address.text⟩
  rw [parseSockAddr, SockAddr.saddr]
  simp only [if_neg hipv4, if_pos hfamily, hdigits, haddress, Option.bind_eq_bind,
    Option.bind_some, hport, String.ofList_toList]
  rfl

/-! ### The first `00` -/

theorem hexDigit_eq_zero_iff : ∀ n < 16, hexDigit n = '0' ↔ n = 0 := by
  decide

/-- The first byte is not zero, so `00` begins at its second digit or after it. -/
theorem find_hexText_cons {b : UInt8} (hb : b ≠ 0) (rest : List UInt8) :
    find "00".toList (hexText (b :: rest)) =
      if ∃ c, rest.head? = some c ∧ Straddles b c then some 1
      else (find "00".toList (hexText rest)).map (· + 2) := by
  have hlt := b.toNat_lt
  have hfirst : ¬"00".toList <+: hexText (b :: rest) := by
    rw [hexText_cons]
    intro h
    obtain ⟨hhigh, h⟩ := List.cons_prefix_cons.mp h
    obtain ⟨hlow, _⟩ := List.cons_prefix_cons.mp h
    apply hb
    apply UInt8.toNat_inj.mp
    have hhigh' := (hexDigit_eq_zero_iff _ (by omega)).mp hhigh.symm
    have hlow' := (hexDigit_eq_zero_iff _ (by omega)).mp hlow.symm
    change b.toNat = 0
    omega
  have hsecond : "00".toList <+: hexDigit (b.toNat % 16) :: hexText rest ↔
      ∃ c, rest.head? = some c ∧ Straddles b c := by
    have hlow := hexDigit_eq_zero_iff (b.toNat % 16) (by omega)
    cases rest with
    | nil => simp [List.cons_prefix_cons]
    | cons c rest =>
        have hc := c.toNat_lt
        have hhigh := hexDigit_eq_zero_iff (c.toNat / 16) (by omega)
        have hstarts : "00".toList <+: hexDigit (b.toNat % 16) :: hexText (c :: rest) ↔
            hexDigit (b.toNat % 16) = '0' ∧ hexDigit (c.toNat / 16) = '0' := by
          rw [hexText_cons]
          simp [List.cons_prefix_cons, eq_comm]
        rw [hstarts, hlow, hhigh]
        simp [Straddles]
  rw [hexText_cons] at hfirst ⊢
  rw [find, if_neg hfirst, find]
  by_cases hstraddles : ∃ c, rest.head? = some c ∧ Straddles b c
  · rw [if_pos (hsecond.mpr hstraddles), if_pos hstraddles]
    rfl
  · rw [if_neg (hsecond.not.mpr hstraddles), if_neg hstraddles, Option.map_map]
    rfl

theorem apart_cons {b : UInt8} {rest : List UInt8} :
    Apart (b :: rest) ↔ (¬∃ c, rest.head? = some c ∧ Straddles b c) ∧ Apart rest := by
  cases rest with
  | nil => simp [Apart]
  | cons c rest => simp [Apart]

/-- Only the first byte of the padding is a neighbour of the name. -/
theorem head?_terminated (name : List UInt8) (padding : ℕ) :
    (name ++ List.replicate padding 0).head? =
      (name ++ List.replicate (min padding 1) 0).head? := by
  cases name with
  | cons b rest => rfl
  | nil =>
      cases padding with
      | zero => rfl
      | succ padding => simp [List.replicate_succ]

/-- Bytes that are apart have their first `00` at the padding. -/
theorem find_of_apart {name : List UInt8} (hzero : 0 ∉ name) {padding : ℕ}
    (h : Apart (name ++ List.replicate (min padding 1) 0)) :
    find "00".toList (hexText (name ++ List.replicate padding 0)) =
      if padding = 0 then none else some (2 * name.length) := by
  induction name with
  | nil =>
      cases padding with
      | zero => rfl
      | succ padding => rfl
  | cons b rest ih =>
      obtain ⟨hb, hrest⟩ := List.ne_and_not_mem_of_not_mem_cons hzero
      rw [List.cons_append, apart_cons, ← head?_terminated] at h
      rw [List.cons_append, find_hexText_cons hb.symm, if_neg h.1, ih hrest h.2]
      split
      · rfl
      · rw [Option.map_some, List.length_cons]
        rfl

/-- Otherwise the first `00` begins inside a byte of the name. -/
theorem find_of_not_apart {name : List UInt8} (hzero : 0 ∉ name) {padding : ℕ}
    (h : ¬Apart (name ++ List.replicate (min padding 1) 0)) :
    ∃ i < name.length,
      find "00".toList (hexText (name ++ List.replicate padding 0)) = some (2 * i + 1) ∧
        (∃ b ∈ name, b.toNat % 16 = 0) ∧
        (i = 0 ↔ StartsStraddled (name ++ List.replicate padding 0)) := by
  induction name with
  | nil =>
      exfalso
      apply h
      cases padding with
      | zero => exact List.IsChain.nil
      | succ padding =>
          rw [Nat.min_eq_right (by omega)]
          exact List.IsChain.singleton _
  | cons b rest ih =>
      obtain ⟨hb, hrest⟩ := List.ne_and_not_mem_of_not_mem_cons hzero
      rw [List.cons_append, apart_cons, ← head?_terminated] at h
      rw [List.cons_append, find_hexText_cons hb.symm]
      by_cases hstraddles :
          ∃ c, (rest ++ List.replicate padding 0).head? = some c ∧ Straddles b c
      · use 0
        rw [if_pos hstraddles]
        obtain ⟨c, hc, hpair⟩ := hstraddles
        refine ⟨by simp, rfl, ⟨b, List.mem_cons_self, hpair.1⟩, ?_⟩
        obtain ⟨tail, htail⟩ := List.head?_eq_some_iff.mp hc
        rw [htail]
        exact ⟨fun _ => hpair, fun _ => rfl⟩
      · obtain ⟨i, hi, hfind, ⟨d, hd, hdigit⟩, _⟩ := ih hrest fun happart => h ⟨hstraddles, happart⟩
        use i + 1
        rw [if_neg hstraddles, hfind]
        refine ⟨by simpa using hi, by simp; omega, ⟨d, List.mem_cons_of_mem _ hd, hdigit⟩, ?_⟩
        constructor
        · intro hzero
          cases hzero
        · intro hstart
          cases htail : rest ++ List.replicate padding 0 with
          | nil =>
              rw [htail] at hstart
              exact absurd hstart id
          | cons c tail =>
              rw [htail] at hstart hstraddles
              exact absurd ⟨c, rfl, hstart⟩ hstraddles

/-! ### Names of sockets -/

section Names

variable {unhex : String → Option String}

theorem parseSockAddr_unix (unhex : String → Option String) (tail : List UInt8) (row : Row) :
    parseSockAddr unhex (hexText (1 :: 0 :: tail)) row =
      if 2 ≤ tail.length then
        (unixFromSaddr unhex (hexText (1 :: 0 :: tail))).map fun name =>
          some (((addressColumns row).2.2.insert "family" "1").insert "socket" name, true)
      else some none := by
  have hfirst : charAt (hexText (1 :: 0 :: tail)) 0 = '0' := rfl
  have hsecond : charAt (hexText (1 :: 0 :: tail)) 1 = '1' := rfl
  have hsize : 6 < (hexText (1 :: 0 :: tail)).length ↔ 2 ≤ tail.length := by
    rw [length_hexText, List.length_cons, List.length_cons]
    omega
  rw [parseSockAddr]
  simp only [hfirst, hsecond, hsize, true_and]
  rw [if_neg (by decide), if_neg (by decide)]
  split
  · cases unixFromSaddr unhex (hexText (1 :: 0 :: tail)) with
    | none => rfl
    | some name => rfl
  · rfl

/-- A name is shown when it is what was decoded. -/
theorem faithful_unix_iff {tail name : List UInt8} {row : Row} :
    (∃ result, parseSockAddr unhex (hexText (1 :: 0 :: tail)) row = some (some (result, true)) ∧
        result["family"]? = some "1" ∧ result["socket"]? = some (bytesText name)) ↔
      2 ≤ tail.length ∧ unixFromSaddr unhex (hexText (1 :: 0 :: tail)) = some (bytesText name) := by
  rw [parseSockAddr_unix]
  constructor
  · rintro ⟨result, hparse, _, hsocket⟩
    split at hparse
    · next hlong =>
        obtain ⟨decoded, hdecoded, hresult⟩ := Option.map_eq_some_iff.mp hparse
        obtain rfl := (Prod.mk.inj (Option.some.inj hresult)).1
        rw [Std.ExtTreeMap.getElem?_insert_self] at hsocket
        exact ⟨hlong, by rw [hdecoded, hsocket]⟩
    · cases hparse
  · rintro ⟨hlong, hdecoded⟩
    rw [if_pos hlong, hdecoded]
    refine ⟨_, rfl, ?_, ?_⟩
    · rw [getElem?_insert_of_ne (by decide), Std.ExtTreeMap.getElem?_insert_self]
    · rw [Std.ExtTreeMap.getElem?_insert_self]

theorem substr_rest {bytes : List UInt8} {i : ℕ} (h : i ≤ bytes.length) :
    substr (hexText bytes) (2 * i) (hexText bytes).length = some (hexText (bytes.drop i)) := by
  rw [substr, if_neg (by rw [length_hexText]; omega), hexText_drop, List.take_of_length_le]
  rw [length_hexText, length_hexText, List.length_drop]
  omega

theorem UnixName.find_padded (name : UnixName) (h : Apart name.terminated) :
    find "00".toList (hexText name.padded) =
      if name.padding = 0 then none else some (2 * name.name.length) :=
  find_of_apart name.no_zero h

theorem UnixName.find_padded_inside (name : UnixName) (h : ¬Apart name.terminated) :
    ∃ i < name.name.length, find "00".toList (hexText name.padded) = some (2 * i + 1) ∧
      (∃ b ∈ name.name, b.toNat % 16 = 0) ∧ (i = 0 ↔ StartsStraddled name.padded) :=
  find_of_not_apart name.no_zero h

theorem UnixName.length_padded (name : UnixName) :
    name.padded.length = name.name.length + name.padding := by
  rw [UnixName.padded, List.length_append, List.length_replicate]

theorem sizeDifference_of_le {m n : ℕ} (hle : n ≤ m) (hm : m < 2 ^ 64) :
    sizeDifference m n = m - n := by
  rw [sizeDifference]
  omega

/-- The part between the start and the stop is decoded, if it is even. -/
theorem unixFromSaddr_of_find (unhex : String → Option String) {bytes : List UInt8} {i : ℕ}
    (hi : i ≤ bytes.length)
    (hstart : (if charAt (hexText bytes) 4 = '0' ∧ charAt (hexText bytes) 5 = '0' then 6 else 4) =
      2 * i) {found : Option ℕ} (hfind : find "00".toList (hexText (bytes.drop i)) = found) :
    unixFromSaddr unhex (hexText bytes) =
      (substr (hexText bytes) (2 * i)
        (sizeDifference (found.elim (2 * bytes.length) (· + 4)) (2 * i))).map
          fun part => (unhex (String.ofList part)).getD "unknown" := by
  rw [unixFromSaddr, hstart, substr_rest hi]
  simp only [Option.bind_eq_bind, Option.bind_some, hfind, length_hexText]
  cases substr (hexText bytes) (2 * i)
    (sizeDifference (found.elim (2 * bytes.length) (· + 4)) (2 * i)) with
  | none => rfl
  | some part => rfl

theorem start_path (name : UnixName) :
    (if charAt (hexText (1 :: 0 :: name.padded)) 4 = '0' ∧
      charAt (hexText (1 :: 0 :: name.padded)) 5 = '0' then 6 else 4) = 2 * 2 := by
  obtain ⟨b, rest, hname⟩ := List.exists_cons_of_ne_nil name.nonempty
  have hlt := b.toNat_lt
  rw [UnixName.padded, hname, if_neg]
  rintro ⟨hhigh, hlow⟩
  have hhigh' := (hexDigit_eq_zero_iff (b.toNat / 16) (by omega)).mp hhigh
  have hlow' := (hexDigit_eq_zero_iff (b.toNat % 16) (by omega)).mp hlow
  apply name.no_zero
  rw [hname, List.mem_cons]
  left
  apply UInt8.toNat_inj.mp
  change 0 = b.toNat
  omega

variable (hunhex : UnhexLaws unhex)
include hunhex

/-- An even part of a dump is decoded. -/
theorem unhex_even {bytes : List UInt8} {i : ℕ} (h : i ≤ bytes.length) (n : ℕ) :
    ∃ part, substr (hexText bytes) (2 * i) (2 * n) = some part ∧
      (unhex (String.ofList part)).getD "unknown" = bytesText ((bytes.drop i).take n) := by
  use hexText ((bytes.drop i).take n), substr_hexText h n
  rw [hunhex.decode]
  rfl

/-- An odd part is not. -/
theorem unhex_odd {bytes : List UInt8} {i n : ℕ} (h : i + n < bytes.length) :
    ∃ part, substr (hexText bytes) (2 * i) (2 * n + 1) = some part ∧
      (unhex (String.ofList part)).getD "unknown" = "unknown" := by
  use (hexText (bytes.drop i)).take (2 * n + 1)
  constructor
  · rw [substr, if_neg (by rw [length_hexText]; omega), hexText_drop]
  · rw [hunhex.odd]
    · rfl
    · rw [String.toList_ofList, List.length_take, length_hexText, List.length_drop]
      omega

section Prefixed

variable (name : UnixName) {before : List UInt8}
  (hstart : (if charAt (hexText (before ++ name.padded)) 4 = '0' ∧
    charAt (hexText (before ++ name.padded)) 5 = '0' then 6 else 4) = 2 * before.length)
include hstart

/-- Bytes that are apart are decoded up to the padding, or two bytes from the end. -/
theorem unixFromSaddr_apart (hbefore : before.length = 2 ∨ before.length = 3)
    (hapart : Apart name.terminated) :
    unixFromSaddr unhex (hexText (before ++ name.padded)) =
      some (bytesText (name.name.take
        (name.name.length - min name.padding (before.length - 2)))) := by
  have hlength := name.length_padded
  have hfits := name.fits
  have hsize : (before ++ name.padded).length = before.length + name.padded.length :=
    List.length_append
  have hdrop : (before ++ name.padded).drop before.length = name.padded := List.drop_left
  have hcount : sizeDifference ((if name.padding = 0 then none
      else some (2 * name.name.length)).elim (2 * (before ++ name.padded).length) (· + 4))
        (2 * before.length) =
      2 * (name.name.length - min name.padding (before.length - 2)) := by
    have hnonempty := List.length_pos_iff.mpr name.nonempty
    split
    · rw [Option.elim_none, sizeDifference_of_le (by omega) (by omega)]
      omega
    · rw [Option.elim_some, sizeDifference_of_le (by omega) (by omega)]
      omega
  obtain ⟨part, hpart, hdecoded⟩ :=
    @unhex_even _ hunhex (before ++ name.padded) before.length (by omega)
      (name.name.length - min name.padding (before.length - 2))
  have hfind := name.find_padded hapart
  rw [← hdrop] at hfind
  rw [unixFromSaddr_of_find unhex (by omega) hstart hfind, hcount, hpart, Option.map_some,
    hdecoded, hdrop]
  have htake : name.padded.take (name.name.length - min name.padding (before.length - 2)) =
      name.name.take (name.name.length - min name.padding (before.length - 2)) :=
    List.take_append_of_le_length (by omega)
  rw [htake]

/-- A `00` inside a byte ends the name there, and what is left is not decoded. -/
theorem unixFromSaddr_inside {i : ℕ} (hbefore : 2 ≤ before.length ∧ before.length ≤ i + 2)
    (hi : i < name.name.length)
    (hfind : find "00".toList (hexText name.padded) = some (2 * i + 1)) :
    unixFromSaddr unhex (hexText (before ++ name.padded)) = some "unknown" := by
  have hlength := name.length_padded
  have hfits := name.fits
  have hsize : (before ++ name.padded).length = before.length + name.padded.length :=
    List.length_append
  have hcount : sizeDifference ((some (2 * i + 1)).elim (2 * (before ++ name.padded).length)
      (· + 4)) (2 * before.length) = 2 * (i + 2 - before.length) + 1 := by
    rw [Option.elim_some, sizeDifference_of_le (by omega) (by omega)]
    omega
  obtain ⟨part, hpart, hdecoded⟩ :=
    @unhex_odd _ hunhex (before ++ name.padded) before.length (i + 2 - before.length) (by omega)
  have hdrop : (before ++ name.padded).drop before.length = name.padded := List.drop_left
  rw [← hdrop] at hfind
  rw [unixFromSaddr_of_find unhex (by omega) hstart hfind, hcount, hpart, Option.map_some,
    hdecoded]

end Prefixed

theorem unixFromSaddr_path (name : UnixName) :
    unixFromSaddr unhex (hexText (1 :: 0 :: name.padded)) =
      some (if Apart name.terminated then bytesText name.name else "unknown") := by
  by_cases hapart : Apart name.terminated
  · have hdecoded := @unixFromSaddr_apart _ hunhex name [1, 0] (start_path name) (.inl rfl) hapart
    rw [if_pos hapart]
    refine hdecoded.trans ?_
    change some (bytesText (name.name.take (name.name.length - min name.padding 0))) = _
    rw [Nat.min_zero, Nat.sub_zero, List.take_length]
  · obtain ⟨i, hi, hfind, _⟩ := name.find_padded_inside hapart
    rw [if_neg hapart]
    have hbefore : 2 ≤ 2 ∧ 2 ≤ i + 2 := by omega
    exact @unixFromSaddr_inside _ hunhex name [1, 0] (start_path name) i hbefore hi hfind

/-- An abstract name loses its last byte to padding, or is taken with the padding when its
first two bytes straddle. -/
theorem unixFromSaddr_abstractName (name : UnixName) :
    unixFromSaddr unhex (hexText (1 :: 0 :: 0 :: name.padded)) =
      some (if Apart name.terminated then
          bytesText (name.name.take (name.name.length - min name.padding 1))
        else if StartsStraddled name.padded then bytesText name.padded
        else "unknown") := by
  have hstart : (if charAt (hexText (1 :: 0 :: 0 :: name.padded)) 4 = '0' ∧
      charAt (hexText (1 :: 0 :: 0 :: name.padded)) 5 = '0' then 6 else 4) = 2 * 3 :=
    if_pos ⟨rfl, rfl⟩
  by_cases hapart : Apart name.terminated
  · rw [if_pos hapart]
    exact @unixFromSaddr_apart _ hunhex name [1, 0, 0] hstart (.inr rfl) hapart
  · obtain ⟨i, hi, hfind, _, hfirst⟩ := name.find_padded_inside hapart
    rw [if_neg hapart]
    by_cases hzero : i = 0
    · -- The stop lies before the start, and the count wraps around.
      have hlength := name.length_padded
      have hfits := name.fits
      have hsize : (1 :: 0 :: 0 :: name.padded).length = 3 + name.padded.length := by
        rw [List.length_cons, List.length_cons, List.length_cons]
        omega
      have hcount : sizeDifference (2 * i + 1 + 4) (2 * 3) = 2 ^ 64 - 1 := by
        rw [hzero]
        rfl
      have hpart : substr (hexText (1 :: 0 :: 0 :: name.padded)) (2 * 3) (2 ^ 64 - 1) =
          some (hexText name.padded) := by
        rw [substr, if_neg (by rw [length_hexText]; omega), hexText_drop, List.take_of_length_le]
        · rfl
        · rw [length_hexText, List.length_drop]
          omega
      rw [unixFromSaddr_of_find unhex (by omega) hstart hfind, Option.elim_some, hcount, hpart,
        if_pos (hfirst.mp hzero), Option.map_some, hunhex.decode]
      rfl
    · rw [if_neg (hfirst.not.mp hzero)]
      have hbefore : 2 ≤ 3 ∧ 3 ≤ i + 2 := by omega
      exact @unixFromSaddr_inside _ hunhex name [1, 0, 0] hstart i hbefore hi hfind

omit hunhex in
theorem bytesText_length (bytes : List UInt8) : (bytesText bytes).toList.length = bytes.length := by
  rw [toList_bytesText, List.length_map]

omit hunhex in
/-- No byte of the text of a failure ends in the digit zero. -/
theorem unknown_ne {name : List UInt8} (h : ∃ b ∈ name, b.toNat % 16 = 0) :
    "unknown" ≠ bytesText name := by
  intro heq
  obtain ⟨b, hb, hdigit⟩ := h
  have hmem : Char.ofNat b.toNat ∈ "unknown".toList := by
    rw [heq, toList_bytesText]
    exact List.mem_map_of_mem hb
  have hall : ∀ c ∈ "unknown".toList, c.toNat % 16 ≠ 0 :=
    forall_mem_of_all (by decide)
  apply hall _ hmem
  rw [toNat_ofNat_of_lt _ b.toNat_lt]
  exact hdigit

theorem faithful_path_iff (name : UnixName) (row : Row) :
    Faithful unhex (.path name) row ↔ (SockAddr.path name).Decodable := by
  refine (@faithful_unix_iff unhex name.padded name.name row).trans ?_
  rw [unixFromSaddr_path hunhex, name.length_padded, Option.some.injEq]
  apply and_congr_right
  intro _
  split
  · next hapart => exact iff_of_true rfl hapart
  · next hapart =>
      obtain ⟨_, _, _, hdigit, _⟩ := name.find_padded_inside hapart
      exact iff_of_false (unknown_ne hdigit) hapart

theorem faithful_abstractName_iff (name : UnixName) (row : Row) :
    Faithful unhex (.abstractName name) row ↔ (SockAddr.abstractName name).Decodable := by
  have hnonempty := List.length_pos_iff.mpr name.nonempty
  have hlong : 2 ≤ (0 :: name.padded).length := by
    rw [List.length_cons, name.length_padded]
    omega
  refine (@faithful_unix_iff unhex (0 :: name.padded) name.name row).trans ?_
  rw [unixFromSaddr_abstractName hunhex, Option.some.injEq, and_iff_right hlong]
  have hlength := name.length_padded
  by_cases hpadding : name.padding = 0
  · have hname : ∀ n, name.name ++ List.replicate (min name.padding n) 0 = name.name := by
      intro n
      rw [hpadding, Nat.zero_min, List.replicate_zero, List.append_nil]
    have hpadded : name.padded = name.name := by
      rw [UnixName.padded, hpadding, List.replicate_zero, List.append_nil]
    have hdecodable : (SockAddr.abstractName name).Decodable ↔
        Apart name.terminated ∨ StartsStraddled name.padded := by
      rw [SockAddr.Decodable, UnixName.terminated, hname, hpadded]
      exact and_iff_right hpadding
    rw [hdecodable]
    split
    · next hapart =>
        refine iff_of_true ?_ (Or.inl hapart)
        rw [hpadding, Nat.zero_min, Nat.sub_zero, List.take_length]
    · next hapart =>
        split
        · next hstart => exact iff_of_true (by rw [hpadded]) (Or.inr hstart)
        · next hstart =>
            obtain ⟨_, _, _, hdigit, _⟩ := name.find_padded_inside hapart
            exact iff_of_false (unknown_ne hdigit) fun h => h.elim hapart hstart
  · refine iff_of_false ?_ fun h => hpadding h.1
    split
    · intro heq
      have hsame := congrArg (fun text => text.toList.length) heq
      simp only [bytesText_length, List.length_take] at hsame
      omega
    · next hapart =>
        split
        · intro heq
          have hsame := congrArg (fun text => text.toList.length) heq
          simp only [bytesText_length] at hsame
          omega
        · obtain ⟨_, _, _, hdigit, _⟩ := name.find_padded_inside hapart
          exact unknown_ne hdigit

/-- The addresses that are decoded. -/
theorem faithful_iff (address : SockAddr) (row : Row) :
    Faithful unhex address row ↔ address.Decodable := by
  cases address with
  | ip4 address => exact iff_of_true (faithful_ip4 unhex address row) trivial
  | ip6 address => exact iff_of_true (faithful_ip6 unhex address row) trivial
  | path name => exact faithful_path_iff hunhex name row
  | abstractName name => exact faithful_abstractName_iff hunhex name row

end Names

/-! ### Two pathnames with a zero after them -/

/-- `/run/x` -/
def runName : UnixName where
  name := [47, 114, 117, 110, 47, 120]
  padding := 1
  nonempty := by decide
  no_zero := by decide
  fits := by decide

/-- `/run/p`, whose last byte ends in the digit zero -/
def straddlingName : UnixName where
  name := [47, 114, 117, 110, 47, 112]
  padding := 1
  nonempty := by decide
  no_zero := by decide
  fits := by decide

theorem faithful_iff_run :
    Faithful decodeText (.path runName) ((∅ : Row).insert "action" "connect") :=
  (faithful_iff decodeText_laws (.path runName) _).mpr ⟨by decide, by decide⟩

/-- A pathname that is reported as unknown. -/
theorem straddling_name_unknown :
    ¬∀ (address : SockAddr) (row : Row), Faithful decodeText address row := by
  intro hall
  have hfaithful := hall (.path straddlingName) ((∅ : Row).insert "action" "connect")
  have happart := ((faithful_path_iff decodeText_laws straddlingName _).mp hfaithful).2
  revert happart
  decide

end Osquery.AuditTables
