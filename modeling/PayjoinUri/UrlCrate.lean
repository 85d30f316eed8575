import Mathlib.Data.String.Basic
import PayjoinUri.Text

/-! The part of the `url` crate that the URI code uses. A `Url` is kept by its
components; `as_str` is the URL Standard serializer over them, and
`set_fragment` stores its argument through the fragment percent-encode set.
`Url::parse` is a parameter of the modules that call it; `UrlParse` states what
they assume of it. -/

namespace PayjoinUri.UrlCrate

open Text

/-- `url::ParseError`. -/
inductive ParseError where
  | emptyHost
  | idnaError
  | invalidPort
  | invalidIpv4Address
  | invalidIpv6Address
  | invalidDomainCharacter
  | relativeUrlWithoutBase
  | relativeUrlWithCannotBeABaseBase
  | setHostOnCannotBeABaseUrl
  | overflow
  deriving DecidableEq, Repr

/-- `url::Host`, an address kept as the text `host_str` shows for it. -/
inductive Host where
  | domain (name : String)
  | ipv4 (text : String)
  | ipv6 (text : String)
  deriving DecidableEq, Repr

/-- The text of a host, as `host_str` returns it (an IPv6 address in brackets). -/
def Host.text : Host → String
  | .domain s | .ipv4 s | .ipv6 s => s

/-- The host with its text passed through `f`. -/
def Host.mapText (f : String → String) : Host → Host
  | .domain s => .domain (f s)
  | .ipv4 s => .ipv4 (f s)
  | .ipv6 s => .ipv6 (f s)

@[simp] theorem Host.text_mapText (f : String → String) (h : Host) :
    (h.mapText f).text = f h.text := by
  cases h <;> rfl

/-- `url::Url` by its components. `password` is `None` when empty, as
`Url::password` returns it; `path` is the serialized path. -/
structure Url where
  scheme : String
  username : String
  password : Option String
  host : Option Host
  port : Option UInt16
  path : String
  query : Option String
  fragment : Option String
  deriving DecidableEq, Repr

namespace Url

/-- `Url::host_str`. -/
def hostStr (u : Url) : Option String := u.host.map Host.text

/-- `Url::domain`: the host when it is a domain. -/
def domain (u : Url) : Option String :=
  match u.host with
  | some (.domain d) => some d
  | _ => none

/-- The credentials and the `@` the serializer writes before the host. -/
def userinfo (u : Url) : String :=
  if u.username = "" ∧ u.password = none then ""
  else u.username ++ (u.password.map (":" ++ ·)).getD "" ++ "@"

/-- What the serializer writes between the scheme's `:` and the path. -/
def authority (u : Url) : String :=
  match u.host with
  | some h =>
    "//" ++ u.userinfo ++ h.text ++ (u.port.map fun p => ":" ++ toString p.toNat).getD ""
  | none => if startsWith u.path "//" then "/." else ""

/-- `Url::as_str`: the URL Standard serializer. -/
def asStr (u : Url) : String :=
  u.scheme ++ ":" ++ u.authority ++ u.path ++ (u.query.map ("?" ++ ·)).getD "" ++
    (u.fragment.map ("#" ++ ·)).getD ""

/-- The URL with its scheme and host text passed through `f`. -/
def mapSchemeHost (f : String → String) (u : Url) : Url :=
  { u with scheme := f u.scheme, host := u.host.map (Host.mapText f) }

/-- Scheme and host in ASCII lower case, as `Url::parse` stores them. -/
def lowerSchemeHost (u : Url) : Url := u.mapSchemeHost toLowercase

/-- Scheme and host in upper case, as `serialize_params` means to write them. -/
def upcaseSchemeHost (u : Url) : Url := u.mapSchemeHost toUppercase

end Url

/-! ## `set_fragment` -/

/-- The bytes `set_fragment` percent-encodes: the fragment percent-encode set
(C0 controls, space, `"`, `<`, `>`, the backtick, DEL) and every non-ASCII byte. -/
def fragmentEncodes (b : Nat) : Bool :=
  b ≤ 0x20 || b == 0x22 || b == 0x3C || b == 0x3E || b == 0x60 || 0x7F ≤ b

/-- An upper-case hexadecimal digit. -/
def hexDigit (n : Nat) : Char := Char.ofNat (if n < 10 then 0x30 + n else 0x37 + n)

def percentEncodeByte (b : UInt8) : List Char :=
  ['%', hexDigit (b.toNat / 16), hexDigit (b.toNat % 16)]

/-- One input character of `set_fragment`: tab and newlines are dropped, and
each UTF-8 byte that `fragmentEncodes` is written as `%XX`. -/
def encodeFragmentChar (c : Char) : List Char :=
  if c = '\t' ∨ c = '\n' ∨ c = '\r' then []
  else (String.utf8EncodeChar c).flatMap fun b =>
    if fragmentEncodes b.toNat then percentEncodeByte b else [Char.ofNat b.toNat]

/-- `Url::set_fragment`. -/
def Url.setFragment (u : Url) : Option String → Url
  | none => { u with fragment := none }
  | some s => { u with fragment := some ⟨s.toList.flatMap encodeFragmentChar⟩ }

/-- A character `set_fragment` keeps as it is: printable ASCII outside the set. -/
def fragmentSafe (c : Char) : Prop := c.toNat ≤ 0x7F ∧ fragmentEncodes c.toNat = false

instance : DecidablePred fragmentSafe := fun _ => inferInstanceAs (Decidable (_ ∧ _))

theorem utf8EncodeChar_ascii {c : Char} (h : c.toNat ≤ 0x7F) :
    String.utf8EncodeChar c = [c.val.toUInt8] := by
  simp [String.utf8EncodeChar, (val_le_iff c 0x7f).2 h]

theorem toUInt8_toNat_ascii {c : Char} (h : c.toNat ≤ 0x7F) : c.val.toUInt8.toNat = c.toNat := by
  rw [UInt32.toUInt8_toNat, Nat.mod_eq_of_lt (by simp [Char.toNat] at h; omega)]
  rfl

theorem encodeFragmentChar_safe {c : Char} (h : fragmentSafe c) : encodeFragmentChar c = [c] := by
  obtain ⟨hc, hs⟩ := h
  have htab : ¬(c = '\t' ∨ c = '\n' ∨ c = '\r') := by
    rintro (rfl | rfl | rfl) <;> simp [fragmentEncodes] at hs
  simp only [encodeFragmentChar, htab, ↓reduceIte, utf8EncodeChar_ascii hc, List.flatMap_cons,
    List.flatMap_nil, List.append_nil, toUInt8_toNat_ascii hc, hs, Bool.false_eq_true,
    Char.ofNat_toNat]

@[simp] theorem setFragment_none (u : Url) : u.setFragment none = { u with fragment := none } := rfl

theorem flatMap_encodeFragmentChar (l : List Char) (h : ∀ c ∈ l, fragmentSafe c) :
    l.flatMap encodeFragmentChar = l := by
  induction l with
  | nil => rfl
  | cons c cs ih =>
    simp [encodeFragmentChar_safe (h c (by simp)), ih fun x hx => h x (by simp [hx])]

theorem setFragment_safe (u : Url) (s : String) (h : ∀ c ∈ s.toList, fragmentSafe c) :
    u.setFragment (some s) = { u with fragment := some s } := by
  simp only [Url.setFragment, flatMap_encodeFragmentChar s.toList h]
  rfl

end PayjoinUri.UrlCrate
