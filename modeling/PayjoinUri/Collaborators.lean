import PayjoinUri.FragmentStore

/-! What the typed fragment accessors call outside `url_ext.rs`: the `bitcoin`
crate's `Hrp` and `u32` consensus codec, `std::time::SystemTime`, and three codecs
of this crate that `src/` does not contain (`crate::bech32::nochecksum`,
`HpkePublicKey`'s compressed bytes, `OhttpKeys`'s text). The consensus codec and
the time arithmetic are written out; the three missing codecs are the fields of
`Codecs`, which carries the contract the accessors rely on, and `refCodecs` is one
lawful instance of it to run the accessors on. -/

namespace PayjoinUri.Collaborators

open Fragment

/-! ## `Hrp` -/

/-- `bitcoin::bech32::Hrp`, by its text. -/
structure Hrp where
  text : String
  deriving DecidableEq, Repr

/-- `Hrp`'s `==`, which ignores ASCII case. -/
def Hrp.eqv (a b : Hrp) : Bool := Text.toLowercase a.text == Text.toLowercase b.text

theorem Hrp.eqv_self (a : Hrp) : a.eqv a = true := beq_self_eq_true _

/-- `Hrp::parse("RK").unwrap()`. -/
def rkHrp : Hrp := ⟨"RK"⟩

/-- `Hrp::parse("EX").unwrap()`. -/
def exHrp : Hrp := ⟨"EX"⟩

/-- An HRP the accessors write: upper-case letters and digits, no `1`. -/
def UpperHrp (hrp : Hrp) : Prop := ∀ c ∈ hrp.text.toList, tokenChar c ∧ c ≠ '1'

instance : DecidablePred UpperHrp := fun _ => inferInstanceAs (Decidable (∀ _ ∈ _, _))

theorem upperHrp_rk : UpperHrp rkHrp := by decide

theorem upperHrp_ex : UpperHrp exHrp := by decide

/-! ## The `u32` consensus codec -/

/-- `bitcoin::consensus::encode::Error`; only the short read occurs here. -/
inductive EncodeError where
  | unexpectedEof
  deriving DecidableEq, Repr

/-- `u32::consensus_encode`: the four bytes, least significant first. -/
def consensusEncodeU32 (t : UInt32) : List UInt8 :=
  [UInt8.ofNat t.toNat, UInt8.ofNat (t.toNat / 0x100), UInt8.ofNat (t.toNat / 0x10000),
    UInt8.ofNat (t.toNat / 0x1000000)]

/-- `u32::consensus_decode`: the first four bytes, least significant first. -/
def consensusDecodeU32 : List UInt8 → Except EncodeError UInt32
  | b₀ :: b₁ :: b₂ :: b₃ :: _ =>
    .ok (UInt32.ofNat (b₀.toNat + 0x100 * b₁.toNat + 0x10000 * b₂.toNat + 0x1000000 * b₃.toNat))
  | _ => .error .unexpectedEof

theorem consensusDecodeU32_encode (t : UInt32) :
    consensusDecodeU32 (consensusEncodeU32 t) = .ok t := by
  have ht := t.toNat_lt
  have h8 (n : Nat) : (UInt8.ofNat n).toNat = n % 2 ^ 8 := rfl
  simp only [consensusEncodeU32, consensusDecodeU32, h8, Except.ok.injEq]
  exact UInt32.ext (by rw [UInt32.toNat_ofNat_of_lt (by unfold UInt32.size; omega)]; omega)

/-- Writing `bytes` into `[0u8; size]` through `&mut [u8]`: `None`, where the
`unwrap` panics, when they do not fit. -/
def fillBuffer (size : Nat) (bytes : List UInt8) : Option (List UInt8) :=
  if bytes.length ≤ size then some (bytes ++ List.replicate (size - bytes.length) 0) else none

theorem fillBuffer_consensusEncodeU32 (t : UInt32) :
    fillBuffer 4 (consensusEncodeU32 t) = some (consensusEncodeU32 t) := rfl

/-! ## `SystemTime` -/

/-- `std::time::SystemTime` on Unix: whole seconds (an `i64`, here unbounded) and
nanoseconds since the epoch. -/
structure SystemTime where
  secs : Int
  nanos : Fin 1000000000
  deriving DecidableEq, Repr

/-- `std::time::Duration`. -/
structure Duration where
  secs : Nat
  nanos : Fin 1000000000
  deriving DecidableEq, Repr

/-- `std::time::SystemTimeError`. -/
structure SystemTimeError where
  deriving DecidableEq, Repr

/-- `UNIX_EPOCH`. -/
def unixEpoch : SystemTime := ⟨0, 0⟩

/-- The nanoseconds from the epoch to `t`. -/
def SystemTime.toNanos (t : SystemTime) : Int := t.secs * 1000000000 + t.nanos

/-- `Duration::from_secs`. -/
def Duration.fromSecs (s : Nat) : Duration := ⟨s, 0⟩

/-- `SystemTime::duration_since`: `Err` when `earlier` is later than `t`. -/
def SystemTime.durationSince (t earlier : SystemTime) : Except SystemTimeError Duration :=
  let d := t.toNanos - earlier.toNanos
  if h : 0 ≤ d then .ok ⟨(d / 1000000000).toNat, ⟨(d % 1000000000).toNat, by omega⟩⟩
  else .error ⟨⟩

/-- `SystemTime + Duration`. -/
def SystemTime.add (t : SystemTime) (d : Duration) : SystemTime :=
  ⟨t.secs + d.secs + (t.nanos.val + d.nanos.val) / 1000000000,
    ⟨(t.nanos.val + d.nanos.val) % 1000000000, Nat.mod_lt _ (by decide)⟩⟩

/-- `u64::try_into::<u32>()`, `None` where the `unwrap` after it panics. -/
def u32TryFrom (n : Nat) : Option UInt32 := if n < 2 ^ 32 then some (UInt32.ofNat n) else none

/-- The time since the epoch is its seconds and nanoseconds, and an error before it. -/
theorem durationSince_unixEpoch (t : SystemTime) :
    t.durationSince unixEpoch = if 0 ≤ t.secs then .ok ⟨t.secs.toNat, t.nanos⟩ else .error ⟨⟩ := by
  have hn := t.nanos.isLt
  have h0 : unixEpoch.toNanos = 0 := rfl
  simp only [SystemTime.durationSince, h0, Int.sub_zero]
  simp only [SystemTime.toNanos]
  split_ifs with h₁ h₂ h₂
  · congr 2
    · omega
    · exact Fin.ext (by simp only; omega)
  · omega
  · omega
  · rfl

theorem unixEpoch_add_fromSecs (n : Nat) : unixEpoch.add (Duration.fromSecs n) = ⟨n, 0⟩ := by
  simp [SystemTime.add, unixEpoch, Duration.fromSecs]

/-! ## The codecs `src/` does not contain -/

/-- `core::fmt::Error`, which writing into a `String` never returns. -/
structure FmtError where
  deriving DecidableEq, Repr

/-- `CheckedHrpstringError`, the no-checksum decoder's error, by what it reports: a parse
error or a checksum error, each with its cause. -/
structure DecodeError where
  description : String
  deriving DecidableEq, Repr

/-- `crate::hpke::HpkeError`, by what it reports. -/
structure HpkeError where
  description : String
  deriving DecidableEq, Repr

/-- `crate::ohttp::ParseOhttpKeysError`, by what it reports. -/
structure ParseOhttpKeysError where
  description : String
  deriving DecidableEq, Repr

/-- Modelled from the spec: the functions of this crate that the accessors call and
that `src/` does not contain, over the key types `PubKey` (`HpkePublicKey`) and
`Keys` (`OhttpKeys`), with their contracts: the no-checksum bech32 encoder succeeds
and writes the HRP, `1` and upper-case data characters without a `1`, and its
decoder inverts it; `from_compressed_bytes` inverts `to_compressed_bytes`;
`OhttpKeys` print as `OH1` and upper-case letters and digits, and parse back. -/
structure Codecs (PubKey Keys : Type) where
  encode : Hrp → List UInt8 → Except FmtError String
  decode : String → Except DecodeError (Hrp × List UInt8)
  toCompressedBytes : PubKey → List UInt8
  fromCompressedBytes : List UInt8 → Except HpkeError PubKey
  ohttpToString : Keys → String
  ohttpFromStr : String → Except ParseOhttpKeysError Keys
  encode_ok : ∀ hrp bytes, UpperHrp hrp →
    ∃ data : String, encode hrp bytes = .ok (hrp.text ++ "1" ++ data) ∧
      ∀ c ∈ data.toList, tokenChar c ∧ c ≠ '1'
  decode_encode : ∀ hrp bytes s, UpperHrp hrp → encode hrp bytes = .ok s →
    decode s = .ok (hrp, bytes)
  fromCompressedBytes_toCompressedBytes : ∀ pk, fromCompressedBytes (toCompressedBytes pk) = .ok pk
  ohttpToString_eq : ∀ k, ∃ data : String, ohttpToString k = "OH1" ++ data ∧
    ∀ c ∈ data.toList, tokenChar c
  ohttpFromStr_toString : ∀ k, ohttpFromStr (ohttpToString k) = .ok k

/-! ## A lawful instance

Each byte is written as two characters out of the first sixteen of the upper-case
bech32 alphabet; public keys are their bytes and `OhttpKeys` the text after `OH1`. -/

/-- The first sixteen characters of the upper-case bech32 alphabet. -/
def nibbleChar (n : Nat) : Char := "QPZRY9X8GF2TVDW0".toList.getD n 'Q'

def nibbleOf (c : Char) : Option Nat := (List.range 16).find? (nibbleChar · == c)

theorem nibbleOf_nibbleChar {n : Nat} (h : n < 16) : nibbleOf (nibbleChar n) = some n := by
  have key : ∀ i : Fin 16, nibbleOf (nibbleChar i) = some i := by decide
  exact key ⟨n, h⟩

theorem nibbleChar_token {n : Nat} (h : n < 16) :
    tokenChar (nibbleChar n) ∧ nibbleChar n ≠ '1' := by
  have key : ∀ i : Fin 16, tokenChar (nibbleChar i) ∧ nibbleChar i ≠ '1' := by decide
  exact key ⟨n, h⟩

def encodeNibbles (bytes : List UInt8) : List Char :=
  bytes.flatMap fun b => [nibbleChar (b.toNat / 16), nibbleChar (b.toNat % 16)]

def decodeNibbles : List Char → Option (List UInt8)
  | [] => some []
  | [_] => none
  | a :: b :: rest => do
    let x ← nibbleOf a
    let y ← nibbleOf b
    let bytes ← decodeNibbles rest
    pure (UInt8.ofNat (16 * x + y) :: bytes)

theorem decodeNibbles_encode (bytes : List UInt8) :
    decodeNibbles (encodeNibbles bytes) = some bytes := by
  induction bytes with
  | nil => rfl
  | cons b bs ih =>
    have hb := b.toNat_lt
    have hhi : b.toNat / 16 < 16 := by omega
    have hlo : b.toNat % 16 < 16 := by omega
    have hbyte : UInt8.ofNat (16 * (b.toNat / 16) + b.toNat % 16) = b :=
      UInt8.ext (by rw [UInt8.toNat_ofNat_of_lt (by unfold UInt8.size; omega)]; omega)
    simp only [encodeNibbles, List.flatMap_cons, List.cons_append, List.nil_append] at ih ⊢
    simp only [decodeNibbles, nibbleOf_nibbleChar hhi, nibbleOf_nibbleChar hlo, ih]
    exact congrArg (some <| · :: bs) hbyte

theorem encodeNibbles_token {bytes : List UInt8} {c : Char} (hc : c ∈ encodeNibbles bytes) :
    tokenChar c ∧ c ≠ '1' := by
  rw [encodeNibbles, List.mem_flatMap] at hc
  obtain ⟨b, -, hb⟩ := hc
  have := b.toNat_lt
  simp only [List.mem_cons, List.mem_singleton, List.not_mem_nil, or_false] at hb
  rcases hb with rfl | rfl
  · exact nibbleChar_token (by omega)
  · exact nibbleChar_token (by omega)

def refEncode (hrp : Hrp) (bytes : List UInt8) : Except FmtError String :=
  .ok (hrp.text ++ "1" ++ ⟨encodeNibbles bytes⟩)

/-- The HRP is the text before the last `1`, as in bech32; the data after it are nibbles. -/
def refDecode (s : String) : Except DecodeError (Hrp × List UInt8) :=
  match s.toList.reverse.dropWhile (· != '1') with
  | [] => .error ⟨"missing separator"⟩
  | _ :: hrp =>
    match decodeNibbles (s.toList.reverse.takeWhile (· != '1')).reverse with
    | some bytes => .ok (⟨⟨hrp.reverse⟩⟩, bytes)
    | none => .error ⟨"invalid data character"⟩

theorem refDecode_encode (hrp : Hrp) (bytes : List UInt8) :
    refDecode (hrp.text ++ "1" ++ ⟨encodeNibbles bytes⟩) = .ok (hrp, bytes) := by
  have hne : ∀ c ∈ (encodeNibbles bytes).reverse, (c != '1') = true := fun c hc => by
    simpa using (encodeNibbles_token (List.mem_reverse.1 hc)).2
  have hs : (hrp.text ++ "1" ++ ⟨encodeNibbles bytes⟩).toList.reverse =
      (encodeNibbles bytes).reverse ++ '1' :: hrp.text.toList.reverse := by
    simp only [String.toList, String.data_append, List.reverse_append]
    rfl
  simp only [refDecode, hs, List.dropWhile_append_of_pos hne, List.takeWhile_append_of_pos hne,
    List.dropWhile_cons, List.takeWhile_cons, bne_self_eq_false, Bool.false_eq_true, ↓reduceIte,
    List.append_nil, List.reverse_reverse, decodeNibbles_encode]
  rfl

/-- A compressed secp256k1 point by its SEC1 form: 33 bytes, the first `2` or `3`; that
the x-coordinate lies on the curve is not checked. -/
structure RefPubKey where
  bytes : List UInt8
  length_eq : bytes.length = 33
  head_eq : bytes.head? = some 2 ∨ bytes.head? = some 3

/-- `from_compressed_bytes` on the SEC1 form: the length and the first byte. -/
def refFromCompressedBytes (bytes : List UInt8) : Except HpkeError RefPubKey :=
  if h : bytes.length = 33 ∧ (bytes.head? = some 2 ∨ bytes.head? = some 3) then
    .ok ⟨bytes, h.1, h.2⟩
  else .error ⟨"invalid compressed public key"⟩

/-- The key with the x-coordinate `7…7` and an even y-coordinate. -/
def examplePubkey : RefPubKey := ⟨2 :: List.replicate 32 7, rfl, .inl rfl⟩

/-- Stand-in `OhttpKeys`: the upper-case text after `OH1`. -/
structure RefKeys where
  data : String
  valid : ∀ c ∈ data.toList, tokenChar c

def refOhttpFromStr (s : String) : Except ParseOhttpKeysError RefKeys :=
  match s.toList with
  | 'O' :: 'H' :: '1' :: rest =>
    if h : ∀ c ∈ rest, tokenChar c then .ok ⟨⟨rest⟩, h⟩ else .error ⟨"invalid key text"⟩
  | _ => .error ⟨"missing OH1 prefix"⟩

/-- The lawful instance. -/
def refCodecs : Codecs RefPubKey RefKeys where
  encode := refEncode
  decode := refDecode
  toCompressedBytes := RefPubKey.bytes
  fromCompressedBytes := refFromCompressedBytes
  ohttpToString k := "OH1" ++ k.data
  ohttpFromStr := refOhttpFromStr
  encode_ok hrp bytes _ := ⟨⟨encodeNibbles bytes⟩, rfl, fun _ hc => encodeNibbles_token hc⟩
  decode_encode hrp bytes s _ hs := by
    cases hs
    exact refDecode_encode hrp bytes
  fromCompressedBytes_toCompressedBytes
    | ⟨_, hl, hh⟩ => dif_pos ⟨hl, hh⟩
  ohttpToString_eq k := ⟨k.data, rfl, k.valid⟩
  ohttpFromStr_toString k := by
    obtain ⟨⟨data⟩, hk⟩ := k
    simp only [refOhttpFromStr]
    exact dif_pos hk

end PayjoinUri.Collaborators
