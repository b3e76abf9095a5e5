import Osquery.Foundation.Numeral
import Mathlib.Data.List.TakeWhile

/-!
# Uniform resource identifiers

A text is taken apart by three regular expressions, one for the whole of it, one for the
authority and the path, and one for the authority.

## Implementation notes

The classes of the expressions are disjoint from what follows them, so a group takes the longest
run of its class. Only the user information can be tried and given up. A text that matches the
first expression and has a port out of the range of `int`, or an authority that does not match,
is thrown, as is a text that does not match at all.
-/

namespace Osquery.Remote

open Foundation.Numeral

abbrev UINT16_MAX : ℤ := 65535

/-! ### The regular expressions -/

/-- The class `[a-zA-Z0-9+.-]`. -/
def isSchemeChar (c : Char) : Bool := c.isAlphanum || c == '+' || c == '.' || c == '-'

/-- The class `.`, which has no line terminator. -/
def isDot (c : Char) : Bool := c != '\n' && c != '\r'

/-- The groups of `authorityRegex`. -/
structure AuthorityGroups where
  username : String
  password : String
  host : String
  port : String
  deriving DecidableEq

/-- The groups of the three expressions; there is no authority unless the second one matches. -/
structure Groups where
  scheme : String
  authority : Option (List Char)
  path : String
  query : String
  fragment : String
  deriving DecidableEq

/-- The group of the host, and the rest. -/
def hostGroup : List Char → Option (List Char × List Char)
  | '[' :: rest =>
      match rest.dropWhile (· ≠ ']') with
      | ']' :: rest' => some ('[' :: rest.takeWhile (· ≠ ']') ++ [']'], rest')
      | _ => none
  | rest =>
      some (rest.takeWhile (fun c => c ≠ '[' ∧ c ≠ ':'), rest.dropWhile fun c => c ≠ '[' ∧ c ≠ ':')

/-- The group of the port, up to the end. -/
def portGroup : List Char → Option (List Char)
  | [] => some []
  | ':' :: digits => if digits.all Char.isDigit then some digits else none
  | _ => none

/-- The groups of the user information, and the rest. -/
def userGroups (authority : List Char) : Option (List Char × List Char × List Char) :=
  let username := authority.takeWhile fun c => c ≠ '@' ∧ c ≠ ':'
  match authority.dropWhile fun c => c ≠ '@' ∧ c ≠ ':' with
  | '@' :: rest => some (username, [], rest)
  | ':' :: rest =>
      match rest.dropWhile (· ≠ '@') with
      | '@' :: rest' => some (username, rest.takeWhile (· ≠ '@'), rest')
      | _ => none
  | _ => none

def hostAndPort (username password rest : List Char) : Option AuthorityGroups :=
  match hostGroup rest with
  | none => none
  | some (host, rest) =>
      match portGroup rest with
      | none => none
      | some port =>
          some ⟨String.ofList username, String.ofList password, String.ofList host,
            String.ofList port⟩

def authorityRegex (authority : List Char) : Option AuthorityGroups :=
  match userGroups authority with
  | none => hostAndPort [] [] authority
  | some (username, password, rest) =>
      hostAndPort username password rest <|> hostAndPort [] [] authority

/-- The groups of the authority and the path. -/
def authorityAndPathRegex : List Char → Option (List Char × List Char)
  | '/' :: '/' :: rest =>
      let path := rest.dropWhile (· ≠ '/')
      if path.all isDot then some (rest.takeWhile (· ≠ '/'), path) else none
  | _ => none

/-- The group of the fragment, up to the end. -/
def fragmentGroup : List Char → Option (List Char)
  | [] => some []
  | '#' :: fragment => if fragment.all isDot then some fragment else none
  | _ => none

/-- The groups of the query and the fragment, up to the end. -/
def queryAndFragment : List Char → Option (List Char × List Char)
  | '?' :: rest =>
      (fragmentGroup (rest.dropWhile (· ≠ '#'))).map fun fragment =>
        (rest.takeWhile (· ≠ '#'), fragment)
  | rest => (fragmentGroup rest).map fun fragment => ([], fragment)

/-- The groups of the scheme, of the authority and path, and of what follows these. -/
def uriRegex (str : List Char) : Option (List Char × List Char × List Char × List Char) :=
  if (str.head?.any Char.isAlpha) then
    match str.dropWhile isSchemeChar with
    | ':' :: rest =>
        (queryAndFragment (rest.dropWhile fun c => c ≠ '?' ∧ c ≠ '#')).map fun following =>
          (str.takeWhile isSchemeChar, rest.takeWhile (fun c => c ≠ '?' ∧ c ≠ '#'), following)
    | _ => none
  else none

def groups (str : String) : Option Groups :=
  (uriRegex str.toList).map fun (scheme, hier, query, fragment) =>
    let scheme := (String.ofList scheme).toLower
    let query := String.ofList query
    let fragment := String.ofList fragment
    match authorityAndPathRegex hier with
    | none => ⟨scheme, none, String.ofList hier, query, fragment⟩
    | some (authority, path) => ⟨scheme, some authority, String.ofList path, query, fragment⟩

/-! ### Identifiers -/

structure Uri where
  scheme_ : String
  hasAuthority_ : Bool
  username_ : String
  password_ : String
  host_ : String
  port_ : ℕ
  path_ : String
  query_ : String
  fragment_ : String
  deriving DecidableEq

/-- The port of a text, where zero stands for none; a text can be out of range. -/
def portOf (port : String) : Option ℕ :=
  if port = "" then some 0
  else
    match stoi port with
    | .error _ => none
    | .ok iport => some (if iport < UINT16_MAX ∧ 0 ≤ iport then iport.toNat else 0)

/-- The constructor, unless it throws. -/
def Uri.ofString (str : String) : Option Uri :=
  match groups str with
  | none => none
  | some g =>
      match g.authority with
      | none => some ⟨g.scheme, false, "", "", "", 0, g.path, g.query, g.fragment⟩
      | some authority =>
          match authorityRegex authority with
          | none => none
          | some a =>
              (portOf a.port).map fun port =>
                ⟨g.scheme, true, a.username, a.password, a.host, port, g.path, g.query, g.fragment⟩

/-! ### Addresses -/

/-- Where a request for an identifier is to go. -/
structure Address where
  host : String
  port : ℕ
  tls : Bool
  deriving DecidableEq

/-- The number that the text of the port stands for, or the port of the scheme. -/
def namedPort (scheme port : String) : Option ℕ :=
  if port ≠ "" then some (Nat.ofDigitChars 10 port.toList 0)
  else if scheme = "https" then some 443
  else if scheme = "http" then some 80
  else none

/-- The address of a text that has one: a host, and a port or a scheme with one. -/
def address (str : String) : Option Address :=
  match groups str with
  | none => none
  | some g =>
      match g.authority.bind authorityRegex with
      | none => none
      | some a =>
          if a.host = "" then none
          else (namedPort g.scheme a.port).map fun port => ⟨a.host, port, g.scheme = "https"⟩

/-- An authority that matches has a host and a port, after its user information or without it. -/
theorem exists_hostAndPort {authority : List Char} {a : AuthorityGroups}
    (h : authorityRegex authority = some a) :
    ∃ text host rest port, hostGroup text = some (host, rest) ∧ portGroup rest = some port ∧
      a.host = String.ofList host ∧ a.port = String.ofList port := by
  have hpair : ∀ {username password text : List Char},
      hostAndPort username password text = some a →
        ∃ text host rest port, hostGroup text = some (host, rest) ∧ portGroup rest = some port ∧
          a.host = String.ofList host ∧ a.port = String.ofList port := by
    intro username password text htext
    rw [hostAndPort] at htext
    split at htext
    · cases htext
    · rename_i host rest hhost
      split at htext
      · cases htext
      · rename_i port hport
        obtain rfl := Option.some.inj htext
        exact ⟨text, host, rest, port, hhost, hport, rfl, rfl⟩
  rw [authorityRegex] at h
  split at h
  · exact hpair h
  · rw [Option.orElse_eq_orElse, Option.orElse_eq_or] at h
    obtain h | ⟨-, h⟩ := Option.or_eq_some_iff.mp h
    · exact hpair h
    · exact hpair h

/-- The group of the port has digits only. -/
theorem isDigit_of_mem_port {authority : List Char} {a : AuthorityGroups}
    (h : authorityRegex authority = some a) {c : Char} (hc : c ∈ a.port.toList) :
    c.isDigit = true := by
  obtain ⟨text, host, rest, port, -, hport, -, heq⟩ := exists_hostAndPort h
  rw [heq, String.toList_ofList] at hc
  rw [portGroup.eq_def] at hport
  split at hport
  · obtain rfl := Option.some.inj hport
    cases hc
  · split at hport
    · rename_i hall
      obtain rfl := Option.some.inj hport
      exact List.all_eq_true.mp hall c hc
    · cases hport
  · cases hport

/-- A number that is read from digits, and is neither too large nor the largest one, is kept. -/
theorem portOf_of_digits {text : String} {port : ℕ} (hne : text ≠ "")
    (hdigits : ∀ c ∈ text.toList, c.isDigit = true)
    (hlt : Nat.ofDigitChars 10 text.toList 0 < 65535) (h : portOf text = some port) :
    port = Nat.ofDigitChars 10 text.toList 0 := by
  have hleading : leading text = some (false, Nat.ofDigitChars 10 text.toList 0) :=
    leading_of_digits (List.append_nil _).symm (by simpa using hne) hdigits (by simp)
  have hstoi : stoi text = .ok (Nat.ofDigitChars 10 text.toList 0 : ℤ) := by
    rw [stoi, hleading]
    simp only [Bool.false_eq_true, if_false]
    rw [if_pos (by omega)]
  rw [portOf, if_neg hne, hstoi] at h
  dsimp only at h
  rw [if_pos (by simp only [UINT16_MAX]; omega), Option.some.injEq, Int.toNat_natCast] at h
  exact h.symm

/-- The number of an address is kept, or there is none and the scheme has it. -/
theorem portOf_of_namedPort {scheme text : String} {named port : ℕ}
    (hdigits : ∀ c ∈ text.toList, c.isDigit = true) (hnamed : namedPort scheme text = some named)
    (hlt : named < 65535) (h : portOf text = some port) :
    port = named ∨ port = 0 ∧ named = if scheme = "https" then 443 else 80 := by
  rw [namedPort] at hnamed
  split at hnamed
  · rename_i hne
    obtain rfl := Option.some.inj hnamed
    exact Or.inl (portOf_of_digits hne hdigits hlt h)
  · rename_i hempty
    rw [portOf, if_pos (not_not.mp hempty)] at h
    refine Or.inr ⟨(Option.some.inj h).symm, ?_⟩
    split at hnamed
    · rename_i hhttps
      rw [if_pos hhttps]
      exact (Option.some.inj hnamed).symm
    · rename_i hother
      rw [if_neg hother]
      split at hnamed
      · exact (Option.some.inj hnamed).symm
      · cases hnamed

/-- The groups of a text that has an address. -/
theorem exists_groups_of_address {str : String} {a : Address} (h : address str = some a) :
    ∃ g authority parts, groups str = some g ∧ g.authority = some authority ∧
      authorityRegex authority = some parts ∧ parts.host = a.host ∧ a.host ≠ "" ∧
        namedPort g.scheme parts.port = some a.port ∧ a.tls = decide (g.scheme = "https") := by
  rw [address] at h
  split at h
  · cases h
  · rename_i g hgroups
    split at h
    · cases h
    · rename_i parts hparts
      obtain ⟨authority, hauthority, hregex⟩ := Option.bind_eq_some_iff.mp hparts
      split at h
      · cases h
      · rename_i hhost
        obtain ⟨port, hport, rfl⟩ := Option.map_eq_some_iff.mp h
        exact ⟨g, authority, parts, hgroups, hauthority, hregex, rfl, hhost, hport, rfl⟩

/-- What the constructor makes of a text that has an address. -/
theorem Uri.ofString_of_address {str : String} {u : Uri} {a : Address}
    (hu : Uri.ofString str = some u) (ha : address str = some a) :
    u.host_ = a.host ∧ a.host ≠ "" ∧ a.tls = decide (u.scheme_ = "https") ∧
      (a.port < 65535 → u.port_ = a.port ∨
        u.port_ = 0 ∧ a.port = if u.scheme_ = "https" then 443 else 80) := by
  obtain ⟨g, authority, parts, hgroups, hauthority, hregex, hhost, hne, hnamed, htls⟩ :=
    exists_groups_of_address ha
  simp only [Uri.ofString, hgroups, hauthority, hregex] at hu
  obtain ⟨port, hport, rfl⟩ := Option.map_eq_some_iff.mp hu
  refine ⟨hhost, hne, htls, fun hlt => ?_⟩
  exact portOf_of_namedPort (fun c hc => isDigit_of_mem_port hregex hc) hnamed hlt hport

end Osquery.Remote
