import PayjoinUri.Collaborators

/-! `impl UrlExt for Url`: the typed getters and setters of the `RK`, `OH` and `EX`
fragment parameters, over `get_param` and `set_param`. Every setter is `set_param`
of a token filed under its tag, and every getter reads the token under its tag and
decodes it, so each getter inverts its setter (`getters_invert_setters`); a setter
leaves the other getters alone when the fragment holds one token per key
(`setters_frame_other_getters`), and `set_exp` returns exactly below `2^32` seconds
after the epoch (`setExp_returns_iff`). -/

namespace PayjoinUri.UrlExt

open Text UrlCrate Fragment FragmentStore Collaborators

/-! ## Errors -/

/-- `ParseOhttpKeysParamError`. -/
inductive ParseOhttpKeysParamError where
  | missingOhttpKeys
  | invalidOhttpKeys (e : ParseOhttpKeysError)
  | invalidFragment (e : ParseFragmentError)
  deriving DecidableEq, Repr

/-- `ParseExpParamError`. -/
inductive ParseExpParamError where
  | missingExp
  | invalidHrp (hrp : Hrp)
  | decodeBech32 (e : DecodeError)
  | invalidExp (e : EncodeError)
  | invalidFragment (e : ParseFragmentError)
  deriving DecidableEq, Repr

/-- `ParseReceiverPubkeyParamError`. -/
inductive ParseReceiverPubkeyParamError where
  | missingPubkey
  | invalidHrp (hrp : Hrp)
  | decodeBech32 (e : DecodeError)
  | invalidPubkey (e : HpkeError)
  | invalidFragment (e : ParseFragmentError)
  deriving DecidableEq, Repr

/-! ## The accessors -/

section Accessors

variable {PubKey Keys : Type} (c : Codecs PubKey Keys)

/-- How every typed getter starts: the token `get_param` found, or the getter's own
`InvalidFragment` or missing-parameter error. -/
def readParam {ε α : Type} (invalidFragment : ParseFragmentError → ε) (missing : ε)
    (finish : String → Except ε α) (param : Except ParseFragmentError (Option String)) :
    Except ε α := do
  let value ← param.mapError invalidFragment
  let value ← match value with
    | some v => pure v
    | none => throw missing
  finish value

/-- How `receiver_pubkey` and `exp` go on: decode the no-checksum bech32 text, check
its HRP, convert the bytes. -/
def decodeBech32Param {ε α : Type} (hrp₀ : Hrp) (decodeBech32 : DecodeError → ε)
    (invalidHrp : Hrp → ε) (convert : List UInt8 → Except ε α) (value : String) :
    Except ε α := do
  let (hrp, bytes) ← (c.decode value).mapError decodeBech32
  if !hrp.eqv hrp₀ then throw (invalidHrp hrp)
  convert bytes

/-- `UrlExt::receiver_pubkey`. -/
def receiverPubkey (url : Url) : Except ParseReceiverPubkeyParamError PubKey :=
  readParam .invalidFragment .missingPubkey
    (decodeBech32Param c rkHrp .decodeBech32 .invalidHrp fun bytes =>
      (c.fromCompressedBytes bytes).mapError .invalidPubkey)
    (getParam url "RK1")

/-- `UrlExt::ohttp`. -/
def ohttp (url : Url) : Except ParseOhttpKeysParamError Keys :=
  readParam .invalidFragment .missingOhttpKeys
    (fun value => (c.ohttpFromStr value).mapError .invalidOhttpKeys)
    (getParam url "OH1")

/-- `UrlExt::exp`. -/
def exp (url : Url) : Except ParseExpParamError SystemTime :=
  readParam .invalidFragment .missingExp
    (decodeBech32Param c exHrp .decodeBech32 .invalidHrp fun bytes =>
      ((consensusDecodeU32 bytes).map fun timestamp =>
        unixEpoch.add (Duration.fromSecs timestamp.toNat)).mapError .invalidExp)
    (getParam url "EX1")

/-- How `set_receiver_pubkey` and `set_exp` end: `set_param` of the encoded bytes,
`None` where the `expect` on the encoder panics. -/
def writeBech32Param (url : Url) (hrp : Hrp) (bytes : List UInt8) : Option Url := do
  let s ← (c.encode hrp bytes).toOption
  setParam url s

/-- `UrlExt::set_receiver_pubkey`. -/
def setReceiverPubkey (url : Url) (pubkey : PubKey) : Option Url :=
  writeBech32Param c url rkHrp (c.toCompressedBytes pubkey)

/-- `UrlExt::set_ohttp`. -/
def setOhttp (url : Url) (ohttp : Keys) : Option Url := setParam url (c.ohttpToString ohttp)

/-- The `u32` that `set_exp` encodes: `0` before the epoch, `None` where
`try_into().unwrap()` panics. -/
def expSeconds (t : SystemTime) : Option UInt32 :=
  match t.durationSince unixEpoch with
  | .ok duration => u32TryFrom duration.secs
  | .error _ => some 0

/-- `UrlExt::set_exp`. -/
def setExp (url : Url) (t : SystemTime) : Option Url := do
  let secs ← expSeconds t
  let buf ← fillBuffer 4 (consensusEncodeU32 secs)
  writeBech32Param c url exHrp buf

theorem readParam_found {ε α : Type} (invalidFragment : ParseFragmentError → ε) (missing : ε)
    (finish : String → Except ε α) (v : String) :
    readParam invalidFragment missing finish (.ok (some v)) = finish v := rfl

theorem decodeBech32Param_of_decode {ε α : Type} {hrp₀ : Hrp} (decodeBech32 : DecodeError → ε)
    (invalidHrp : Hrp → ε) (convert : List UInt8 → Except ε α) {value : String}
    {bytes : List UInt8} (h : c.decode value = .ok (hrp₀, bytes)) :
    decodeBech32Param c hrp₀ decodeBech32 invalidHrp convert value = convert bytes := by
  simp [decodeBech32Param, h, Except.mapError, bind, Except.bind, Hrp.eqv_self, pure, Except.pure]

/-- The conversion gets the bytes of any HRP equal to the expected one ignoring case. -/
theorem decodeBech32Param_of_eqv {ε α : Type} {hrp₀ hrp : Hrp} (decodeBech32 : DecodeError → ε)
    (invalidHrp : Hrp → ε) (convert : List UInt8 → Except ε α) {value : String}
    {bytes : List UInt8} (h : c.decode value = .ok (hrp, bytes)) (hh : hrp.eqv hrp₀ = true) :
    decodeBech32Param c hrp₀ decodeBech32 invalidHrp convert value = convert bytes := by
  simp [decodeBech32Param, h, hh, Except.mapError, bind, Except.bind, pure, Except.pure]

section Inversion

variable {ε α : Type}

/-- A getter's `InvalidFragment` and missing-parameter errors come from `get_param`
alone, when its decoding never fails with one of them. -/
theorem readParam_fragment_errors {invalidFragment : ParseFragmentError → ε} {missing : ε}
    {finish : String → Except ε α} (hinj : ∀ a b, invalidFragment a = invalidFragment b → a = b)
    (hmissing : ∀ e, missing ≠ invalidFragment e)
    (hfinish : ∀ v y, finish v = .error y → y ≠ missing ∧ ∀ e, y ≠ invalidFragment e)
    (param : Except ParseFragmentError (Option String)) :
    (∀ e, readParam invalidFragment missing finish param = .error (invalidFragment e) ↔
      param = .error e) ∧
    (readParam invalidFragment missing finish param = .error missing ↔ param = .ok none) := by
  cases param with
  | error e' =>
    exact ⟨fun e => ⟨fun h => by cases hinj _ _ (Except.error.inj h); rfl,
        fun h => by cases h; rfl⟩,
      fun h => absurd (Except.error.inj h).symm (hmissing e'), nofun⟩
  | ok o =>
    cases o with
    | none => exact ⟨fun e => ⟨fun h => absurd (Except.error.inj h) (hmissing e), nofun⟩,
        iff_of_true rfl rfl⟩
    | some v => exact ⟨fun e => ⟨fun h => ((hfinish v _ h).2 e rfl).elim, nofun⟩,
        fun h => ((hfinish v _ h).1 rfl).elim, nofun⟩

/-- The bech32 half of a getter fails only with its own errors or its conversion's. -/
theorem decodeBech32Param_eq_error {hrp₀ : Hrp} {decodeBech32 : DecodeError → ε}
    {invalidHrp : Hrp → ε} {convert : List UInt8 → Except ε α} {value : String} {y : ε}
    (h : decodeBech32Param c hrp₀ decodeBech32 invalidHrp convert value = .error y) :
    (∃ e, decodeBech32 e = y) ∨ (∃ hrp, invalidHrp hrp = y) ∨
      ∃ bytes, convert bytes = .error y := by
  unfold decodeBech32Param at h
  cases hdec : c.decode value with
  | error e =>
    rw [hdec] at h
    exact .inl ⟨e, Except.error.inj h⟩
  | ok p =>
    obtain ⟨hrp, bytes⟩ := p
    rw [hdec] at h
    by_cases hh : hrp.eqv hrp₀
    · simp only [Except.mapError, bind, Except.bind, hh, Bool.not_true] at h
      exact .inr (.inr ⟨bytes, h⟩)
    · simp only [Except.mapError, bind, Except.bind, hh, Bool.not_false, ↓reduceIte, throw,
        throwThe, MonadExceptOf.throw, Except.error.injEq] at h
      exact .inr (.inl ⟨hrp, h⟩)

end Inversion

end Accessors

/-! ## Errors of the getters -/

/-- The URL has a fragment that `check_fragment_delimiter` rejects with `e`. -/
def FragmentRejected (url : Url) (e : ParseFragmentError) : Prop :=
  ∃ f, url.fragment = some f ∧ checkFragmentDelimiter f = .error e

/-- The URL has no fragment, or one that `check_fragment_delimiter` accepts and none of
whose pieces starts with `pre`. -/
def NoParam (url : Url) (pre : String) : Prop :=
  ∀ f, url.fragment = some f →
    ∃ d, checkFragmentDelimiter f = .ok d ∧ ∀ p ∈ split f d, startsWith p pre = false

theorem getParam_eq_error {url : Url} {pre : String} {e : ParseFragmentError} :
    getParam url pre = .error e ↔ FragmentRejected url e := by
  unfold getParam FragmentRejected
  cases url.fragment with
  | none => exact ⟨nofun, fun ⟨_, h, _⟩ => nomatch h⟩
  | some f =>
    cases hc : checkFragmentDelimiter f <;> simp [hc, bind, Except.bind, pure, Except.pure]

theorem getParam_eq_ok_none {url : Url} {pre : String} :
    getParam url pre = .ok none ↔ NoParam url pre := by
  unfold getParam NoParam
  cases url.fragment with
  | none => exact iff_of_true rfl nofun
  | some f =>
    cases hc : checkFragmentDelimiter f <;>
      simp [hc, bind, Except.bind, pure, Except.pure, List.find?_eq_none]

section Errors

variable {PubKey Keys : Type} (c : Codecs PubKey Keys) (url : Url)

theorem receiverPubkey_fragment_errors :
    (∀ e, receiverPubkey c url = .error (.invalidFragment e) ↔ getParam url "RK1" = .error e) ∧
    (receiverPubkey c url = .error .missingPubkey ↔ getParam url "RK1" = .ok none) := by
  refine readParam_fragment_errors (fun _ _ h => by cases h; rfl) (fun _ h => by cases h)
    (fun v y h => ?_) _
  rcases decodeBech32Param_eq_error c h with ⟨_, rfl⟩ | ⟨_, rfl⟩ | ⟨b, hb⟩
  · exact ⟨nofun, fun _ => nofun⟩
  · exact ⟨nofun, fun _ => nofun⟩
  · cases hc : c.fromCompressedBytes b <;> simp only [hc, Except.mapError, reduceCtorEq,
      Except.error.injEq] at hb
    exact hb ▸ ⟨nofun, fun _ => nofun⟩

theorem ohttp_fragment_errors :
    (∀ e, ohttp c url = .error (.invalidFragment e) ↔ getParam url "OH1" = .error e) ∧
    (ohttp c url = .error .missingOhttpKeys ↔ getParam url "OH1" = .ok none) := by
  refine readParam_fragment_errors (fun _ _ h => by cases h; rfl) (fun _ h => by cases h)
    (fun v y h => ?_) _
  cases hc : c.ohttpFromStr v <;> simp only [hc, Except.mapError, reduceCtorEq,
    Except.error.injEq] at h
  exact h ▸ ⟨nofun, fun _ => nofun⟩

theorem exp_fragment_errors :
    (∀ e, exp c url = .error (.invalidFragment e) ↔ getParam url "EX1" = .error e) ∧
    (exp c url = .error .missingExp ↔ getParam url "EX1" = .ok none) := by
  refine readParam_fragment_errors (fun _ _ h => by cases h; rfl) (fun _ h => by cases h)
    (fun v y h => ?_) _
  rcases decodeBech32Param_eq_error c h with ⟨_, rfl⟩ | ⟨_, rfl⟩ | ⟨b, hb⟩
  · exact ⟨nofun, fun _ => nofun⟩
  · exact ⟨nofun, fun _ => nofun⟩
  · cases hc : consensusDecodeU32 b <;> simp only [hc, Except.map, Except.mapError,
      reduceCtorEq, Except.error.injEq] at hb
    exact hb ▸ ⟨nofun, fun _ => nofun⟩

/-- **The typed getters fail with `InvalidFragment` exactly when the URL has a fragment
that `check_fragment_delimiter` rejects**, with its error, **and report their parameter
missing exactly when no piece of an accepted fragment starts with its tag and `1`.** -/
theorem getters_fragment_errors :
    (∀ e, receiverPubkey c url = .error (.invalidFragment e) ↔ FragmentRejected url e) ∧
    (receiverPubkey c url = .error .missingPubkey ↔ NoParam url "RK1") ∧
    (∀ e, ohttp c url = .error (.invalidFragment e) ↔ FragmentRejected url e) ∧
    (ohttp c url = .error .missingOhttpKeys ↔ NoParam url "OH1") ∧
    (∀ e, exp c url = .error (.invalidFragment e) ↔ FragmentRejected url e) ∧
    (exp c url = .error .missingExp ↔ NoParam url "EX1") := by
  obtain ⟨hr, hr'⟩ := receiverPubkey_fragment_errors c url
  obtain ⟨ho, ho'⟩ := ohttp_fragment_errors c url
  obtain ⟨he, he'⟩ := exp_fragment_errors c url
  exact ⟨fun e => (hr e).trans getParam_eq_error, hr'.trans getParam_eq_ok_none,
    fun e => (ho e).trans getParam_eq_error, ho'.trans getParam_eq_ok_none,
    fun e => (he e).trans getParam_eq_error, he'.trans getParam_eq_ok_none⟩

/-- **`exp` reads the first four bytes of its token and ignores the rest.** When the `EX1`
token of the fragment decodes to an HRP equal to `EX` ignoring case, `exp` returns the time
that many seconds after the epoch which the first four bytes give, least significant first,
whatever bytes follow them; with fewer than four bytes it fails with `InvalidExp`. -/
theorem exp_reads_four_bytes {v : String} (hv : getParam url "EX1" = .ok (some v)) {hrp : Hrp}
    {bytes : List UInt8} (hdec : c.decode v = .ok (hrp, bytes)) (hh : hrp.eqv exHrp = true) :
    (bytes.length < 4 → exp c url = .error (.invalidExp .unexpectedEof)) ∧
    ∀ b₀ b₁ b₂ b₃ rest, bytes = b₀ :: b₁ :: b₂ :: b₃ :: rest →
      exp c url = .ok (unixEpoch.add (Duration.fromSecs
        (b₀.toNat + 0x100 * b₁.toNat + 0x10000 * b₂.toNat + 0x1000000 * b₃.toNat))) := by
  have hexp : exp c url = ((consensusDecodeU32 bytes).map fun timestamp =>
      unixEpoch.add (Duration.fromSecs timestamp.toNat)).mapError .invalidExp := by
    rw [exp, hv, readParam_found, decodeBech32Param_of_eqv c _ _ _ hdec hh]
  refine ⟨fun hlen => ?_, fun b₀ b₁ b₂ b₃ rest hb => ?_⟩
  · rw [hexp]
    match bytes, hlen with
    | [], _ | [_], _ | [_, _], _ | [_, _, _], _ => rfl
  · have := b₀.toNat_lt; have := b₁.toNat_lt; have := b₂.toNat_lt; have := b₃.toNat_lt
    rw [hexp, hb, consensusDecodeU32, Except.map, Except.mapError,
      UInt32.toNat_ofNat_of_lt (by unfold UInt32.size; omega)]

end Errors

/-! ## Tokens filed under a tag -/

/-- `t` is a token that `set_param` files under `k` and that `get_param` finds by `k1`. -/
def Tagged (k t : String) : Prop := ValidToken t ∧ paramKey t = k ∧ startsWith t (k ++ "1")

/-- A tag, `1` and upper-case data is a token filed under the tag. -/
theorem tagged_append {k data : String} (hk : ∀ ch ∈ k.toList, tokenChar ch ∧ ch ≠ '1')
    (hdata : ∀ ch ∈ data.toList, tokenChar ch) : Tagged k (k ++ "1" ++ data) := by
  have hs : startsWith (k ++ "1" ++ data) (k ++ "1") :=
    List.isPrefixOf_iff_prefix.2 ⟨data.toList, rfl⟩
  have hchars : (k ++ "1" ++ data).toList = k.toList ++ '1' :: data.toList := by
    simp only [String.toList, String.data_append, List.append_assoc]
    rfl
  refine ⟨⟨by simp [hchars], fun ch hch => ?_⟩,
    paramKey_of_startsWith (fun h => (hk _ h).2 rfl) hs, hs⟩
  rw [hchars, List.mem_append, List.mem_cons] at hch
  rcases hch with h | rfl | h
  · exact (hk ch h).1
  · rfl
  · exact hdata ch h

section Tagged

variable {url : Url} {d : Char} (hd : checkFragmentDelimiter (url.fragment.getD "") = .ok d)
include hd

/-- A getter reads back the token written under its tag. -/
theorem read_setParam_tagged {k t : String} (ht : Tagged k t) {β : Type}
    (read : Except ParseFragmentError (Option String) → β) :
    (setParam url t).map (fun u => read (getParam u (k ++ "1"))) = some (read (.ok (some t))) := by
  obtain ⟨hv, rfl, h1⟩ := ht
  have h := congrArg (Option.map read) (getParam_setParam_self hd hv h1)
  rwa [Option.map_map] at h

/-- A getter of another tag reads what it read before, when the fragment held at most
one token under that tag. -/
theorem read_setParam_frame {k t : String} (ht : Tagged k t) (k' : String) (hk' : '1' ∉ k'.toList)
    (hne : k ≠ k') (hone : ((tokens (url.fragment.getD "") d).filter (paramKey · == k')).length ≤ 1)
    {β : Type} (read : Except ParseFragmentError (Option String) → β) :
    (setParam url t).map (fun u => read (getParam u (k' ++ "1"))) =
      some (read (getParam url (k' ++ "1"))) := by
  obtain ⟨hv, rfl, -⟩ := ht
  have h := congrArg (Option.map read) (getParam_setParam_of_ne hd hv hk' hne hone)
  rwa [Option.map_map] at h

/-- `set_param` of a tagged token returns. -/
theorem setParam_isSome {t : String} (ht : ValidToken t) : (setParam url t).isSome := by
  rw [setParam_eq hd ht]
  rfl

end Tagged

/-! ## What each setter writes -/

section Setters

variable {PubKey Keys : Type} (c : Codecs PubKey Keys) (url : Url)

theorem writeBech32Param_spec {hrp : Hrp} (h : UpperHrp hrp) (bytes : List UInt8) :
    ∃ t, writeBech32Param c url hrp bytes = setParam url t ∧ Tagged hrp.text t ∧
      c.decode t = .ok (hrp, bytes) := by
  obtain ⟨data, he, hdata⟩ := c.encode_ok hrp bytes h
  exact ⟨_, by simp [writeBech32Param, he, Except.toOption],
    tagged_append h fun ch hc => (hdata ch hc).1,
    c.decode_encode hrp bytes _ h he⟩

theorem setReceiverPubkey_spec (pk : PubKey) :
    ∃ t, setReceiverPubkey c url pk = setParam url t ∧ Tagged "RK" t ∧
      c.decode t = .ok (rkHrp, c.toCompressedBytes pk) :=
  writeBech32Param_spec c url upperHrp_rk _

theorem setOhttp_spec (k : Keys) :
    setOhttp c url k = setParam url (c.ohttpToString k) ∧ Tagged "OH" (c.ohttpToString k) := by
  obtain ⟨data, he, hdata⟩ := c.ohttpToString_eq k
  refine ⟨rfl, ?_⟩
  rw [he]
  exact tagged_append (k := "OH") (by decide) hdata

/-- Before the epoch `set_exp` encodes `0`, and from `2^32` seconds on it panics. -/
theorem expSeconds_eq (t : SystemTime) :
    expSeconds t = if 0 ≤ t.secs then u32TryFrom t.secs.toNat else some 0 := by
  rw [expSeconds, durationSince_unixEpoch]
  split_ifs <;> rfl

theorem expSeconds_of_lt {t : SystemTime} (h : t.secs < (2 ^ 32 : Nat)) :
    expSeconds t = some (UInt32.ofNat t.secs.toNat) := by
  rw [expSeconds_eq]
  split_ifs with h0
  · rw [u32TryFrom, if_pos (by omega)]
  · rw [show t.secs.toNat = 0 by omega]
    rfl

theorem setExp_spec {t : SystemTime} (h : t.secs < (2 ^ 32 : Nat)) :
    ∃ tok, setExp c url t = setParam url tok ∧ Tagged "EX" tok ∧
      c.decode tok = .ok (exHrp, consensusEncodeU32 (UInt32.ofNat t.secs.toNat)) := by
  obtain ⟨tok, hw, ht, hdec⟩ := writeBech32Param_spec c url upperHrp_ex
    (consensusEncodeU32 (UInt32.ofNat t.secs.toNat))
  refine ⟨tok, ?_, ht, hdec⟩
  simp only [setExp, expSeconds_of_lt h, fillBuffer_consensusEncodeU32]
  exact hw

end Setters

/-- From `2^32` seconds on `set_exp` panics whatever the URL. -/
theorem setExp_eq_none {PubKey Keys : Type} (c : Codecs PubKey Keys) {t : SystemTime}
    (h : ¬t.secs < (2 ^ 32 : Nat)) (url : Url) : setExp c url t = none := by
  have hnone : expSeconds t = none := by
    rw [expSeconds_eq, if_pos (by omega), u32TryFrom, if_neg (by omega)]
  simp [setExp, hnone]

/-! ## Getters after setters -/

section Roundtrip

variable {PubKey Keys : Type} (c : Codecs PubKey Keys) {url : Url} {d : Char}
  (hd : checkFragmentDelimiter (url.fragment.getD "") = .ok d)
include hd

theorem receiverPubkey_setReceiverPubkey (pk : PubKey) :
    (setReceiverPubkey c url pk).map (receiverPubkey c) = some (.ok pk) := by
  obtain ⟨t, hs, ht, hdec⟩ := setReceiverPubkey_spec c url pk
  rw [hs]
  refine (read_setParam_tagged hd ht _).trans ?_
  rw [readParam_found, decodeBech32Param_of_decode c _ _ _ hdec,
    c.fromCompressedBytes_toCompressedBytes]
  rfl

theorem ohttp_setOhttp (k : Keys) : (setOhttp c url k).map (ohttp c) = some (.ok k) := by
  obtain ⟨hs, ht⟩ := setOhttp_spec c url k
  rw [hs]
  refine (read_setParam_tagged hd ht _).trans ?_
  rw [readParam_found, c.ohttpFromStr_toString]
  rfl

/-- `exp` reads the whole seconds `set_exp` wrote, a time before the epoch as the epoch. -/
theorem exp_setExp {t : SystemTime} (h : t.secs < (2 ^ 32 : Nat)) :
    (setExp c url t).map (exp c) = some (.ok ⟨max t.secs 0, 0⟩) := by
  obtain ⟨tok, hs, ht, hdec⟩ := setExp_spec c url h
  rw [hs]
  refine (read_setParam_tagged hd ht _).trans ?_
  have hsecs : (UInt32.ofNat t.secs.toNat).toNat = t.secs.toNat :=
    UInt32.toNat_ofNat_of_lt (by unfold UInt32.size; omega)
  rw [readParam_found, decodeBech32Param_of_decode c _ _ _ hdec, consensusDecodeU32_encode]
  simp only [Except.map, Except.mapError, hsecs, unixEpoch_add_fromSecs, Int.toNat_eq_max]

/-- **Each getter inverts its setter.** -/
theorem getters_invert_setters :
    (∀ pk, (setReceiverPubkey c url pk).map (receiverPubkey c) = some (.ok pk)) ∧
    (∀ k, (setOhttp c url k).map (ohttp c) = some (.ok k)) ∧
    (∀ t : SystemTime, t.secs < (2 ^ 32 : Nat) →
      (setExp c url t).map (exp c) = some (.ok ⟨max t.secs 0, 0⟩)) :=
  ⟨receiverPubkey_setReceiverPubkey c hd, ohttp_setOhttp c hd, fun _ h => exp_setExp c hd h⟩

end Roundtrip

/-- `https://example.com/` with a legacy `+`-delimited fragment. -/
def legacyUrl : Url := exampleComUrl "OH1Q+EX1C"

theorem getters_invert_setters_legacy :
    checkFragmentDelimiter (legacyUrl.fragment.getD "") = .ok '+' ∧
    (∀ pk, (setReceiverPubkey refCodecs legacyUrl pk).map (receiverPubkey refCodecs) =
      some (.ok pk)) ∧
    (∀ k, (setOhttp refCodecs legacyUrl k).map (ohttp refCodecs) = some (.ok k)) ∧
    (∀ t : SystemTime, t.secs < (2 ^ 32 : Nat) →
      (setExp refCodecs legacyUrl t).map (exp refCodecs) = some (.ok ⟨max t.secs 0, 0⟩)) :=
  ⟨rfl, getters_invert_setters refCodecs rfl⟩

/-! ## `set_exp` and the `u32` range -/

section SetExp

variable {PubKey Keys : Type} (c : Codecs PubKey Keys) {url : Url} {d : Char}
  (hd : checkFragmentDelimiter (url.fragment.getD "") = .ok d)
include hd

/-- **`set_exp` returns exactly below `2^32` seconds after the epoch**: times before
the epoch are written as `0` and the four encoded bytes always fit the buffer, but
`try_into().unwrap()` panics from `2^32` seconds on. -/
theorem setExp_returns_iff (t : SystemTime) :
    ((setExp c url t).isSome ↔ t.secs < (2 ^ 32 : Nat)) ∧ (t.secs < 0 → expSeconds t = some 0) ∧
      ∀ s, (fillBuffer 4 (consensusEncodeU32 s)).isSome := by
  refine ⟨⟨fun hs => ?_, fun h => ?_⟩, fun h => by rw [expSeconds_eq, if_neg (by omega)],
    fun _ => rfl⟩
  · exact Int.lt_of_not_ge fun h => by simp [setExp_eq_none c (t := t) (by omega) url] at hs
  · obtain ⟨tok, hs, ht, -⟩ := setExp_spec c url h
    rw [hs]
    exact setParam_isSome hd ht.1

end SetExp

theorem setExp_returns_iff_legacy :
    checkFragmentDelimiter (legacyUrl.fragment.getD "") = .ok '+' ∧
    (((setExp refCodecs legacyUrl ⟨1720547781, 0⟩).isSome ↔ (1720547781 : Int) < (2 ^ 32 : Nat)) ∧
      ((1720547781 : Int) < 0 → expSeconds ⟨1720547781, 0⟩ = some 0) ∧
      ∀ s, (fillBuffer 4 (consensusEncodeU32 s)).isSome) :=
  ⟨rfl, @setExp_returns_iff _ _ refCodecs legacyUrl '+' rfl ⟨1720547781, 0⟩⟩

/-- `2^32` seconds after the epoch `try_into().unwrap()` panics, whatever the codecs and
the URL. -/
theorem setExp_panics_at_two_pow_32 {PubKey Keys : Type} (c : Codecs PubKey Keys) (url : Url) :
    expSeconds ⟨(2 ^ 32 : Nat), 0⟩ = none ∧ setExp c url ⟨(2 ^ 32 : Nat), 0⟩ = none :=
  ⟨rfl, rfl⟩

/-! ## The setters in any order -/

/-- A write of the fragment store whatever the URL: `set_param` of one token filed under
`k`, or a panic. -/
def WritesTagged (k : String) (w : Url → Option Url) : Prop :=
  (∀ url, w url = none) ∨ ∃ t, Tagged k t ∧ ∀ url, w url = setParam url t

section Order

variable {url : Url} {d : Char} (hd : checkFragmentDelimiter (url.fragment.getD "") = .ok d)
include hd

theorem WritesTagged.comm {k k' : String} {w w' : Url → Option Url} (hw : WritesTagged k w)
    (hw' : WritesTagged k' w') (hne : k ≠ k') : (w url).bind w' = (w' url).bind w := by
  rcases hw with hw | ⟨t, ht, hw⟩
  · cases w' url <;> simp [hw]
  rcases hw' with hw' | ⟨t', ht', hw'⟩
  · cases w url <;> simp [hw']
  simp only [hw, hw']
  exact setParam_comm hd ht.1 ht'.1 (by rw [ht.2.1, ht'.2.1]; exact hne)

theorem WritesTagged.last_wins {k : String} {w w' : Url → Option Url}
    (hw : ∃ t, Tagged k t ∧ ∀ url, w url = setParam url t) (hw' : WritesTagged k w') :
    (w url).bind w' = w' url := by
  obtain ⟨t, ht, hw⟩ := hw
  rcases hw' with hw' | ⟨t', ht', hw'⟩
  · rw [hw' url]
    cases w url <;> simp [hw']
  simp only [hw, hw']
  exact setParam_last_wins hd ht.1 ht'.1 (ht.2.1.trans ht'.2.1.symm)

end Order

section Tokens

variable {PubKey Keys : Type} (c : Codecs PubKey Keys)

/-- The token a bech32 setter writes does not depend on the URL. -/
theorem writeBech32Param_token {hrp : Hrp} (h : UpperHrp hrp) (bytes : List UInt8) :
    ∃ t, Tagged hrp.text t ∧ ∀ url, writeBech32Param c url hrp bytes = setParam url t := by
  obtain ⟨data, he, hdata⟩ := c.encode_ok hrp bytes h
  exact ⟨_, tagged_append h fun ch hc => (hdata ch hc).1, fun url => by
    simp [writeBech32Param, he, Except.toOption]⟩

theorem setReceiverPubkey_token (pk : PubKey) :
    ∃ t, Tagged "RK" t ∧ ∀ url, setReceiverPubkey c url pk = setParam url t :=
  writeBech32Param_token c upperHrp_rk _

theorem setOhttp_token (k : Keys) :
    ∃ t, Tagged "OH" t ∧ ∀ url, setOhttp c url k = setParam url t := by
  obtain ⟨data, he, hdata⟩ := c.ohttpToString_eq k
  exact ⟨_, he ▸ tagged_append (k := "OH") (by decide) hdata, fun _ => rfl⟩

/-- Below `2^32` seconds `set_exp` writes one token whatever the URL. -/
theorem setExp_token {t : SystemTime} (h : t.secs < (2 ^ 32 : Nat)) :
    ∃ tok, Tagged "EX" tok ∧ ∀ url, setExp c url t = setParam url tok := by
  obtain ⟨tok, ht, hw⟩ := writeBech32Param_token c upperHrp_ex
    (consensusEncodeU32 (UInt32.ofNat t.secs.toNat))
  refine ⟨tok, ht, fun url => ?_⟩
  simp only [setExp, expSeconds_of_lt h, fillBuffer_consensusEncodeU32]
  exact hw url

theorem writesTagged_setExp (t : SystemTime) : WritesTagged "EX" (setExp c · t) := by
  by_cases h : t.secs < (2 ^ 32 : Nat)
  · exact .inr (setExp_token c h)
  · exact .inl (setExp_eq_none c h)

end Tokens

/-! ## Setters and the other getters -/

/-- The fragment holds at most one token under the key `k`. -/
def AtMostOneToken (url : Url) (d : Char) (k : String) : Prop :=
  ((tokens (url.fragment.getD "") d).filter (paramKey · == k)).length ≤ 1

instance (url : Url) (d : Char) (k : String) : Decidable (AtMostOneToken url d k) :=
  inferInstanceAs (Decidable (_ ≤ _))

section Frame

variable {PubKey Keys : Type} (c : Codecs PubKey Keys) {url : Url} {d : Char}
  (hd : checkFragmentDelimiter (url.fragment.getD "") = .ok d)
include hd

/-- A write of one token under `k` leaves a getter of another tag reading what it read
before, when the fragment held at most one token under that tag. -/
theorem write_frame {k : String} {w : Url → Option Url}
    (hw : ∃ t, Tagged k t ∧ ∀ url, w url = setParam url t) (k' : String) (hk' : '1' ∉ k'.toList)
    (hne : k ≠ k') (hone : AtMostOneToken url d k') {β : Type}
    (read : Except ParseFragmentError (Option String) → β) :
    (w url).map (fun u => read (getParam u (k' ++ "1"))) =
      some (read (getParam url (k' ++ "1"))) := by
  obtain ⟨t, ht, hw⟩ := hw
  rw [hw]
  exact read_setParam_frame hd ht k' hk' hne hone read

/-- **A setter leaves the getter of another tag alone when the fragment holds at most one
token under that tag**, as every fragment `set_param` writes does. -/
theorem setters_frame_other_getters :
    (AtMostOneToken url d "RK" →
      (∀ k, (setOhttp c url k).map (receiverPubkey c) = some (receiverPubkey c url)) ∧
      ∀ t : SystemTime, t.secs < (2 ^ 32 : Nat) →
        (setExp c url t).map (receiverPubkey c) = some (receiverPubkey c url)) ∧
    (AtMostOneToken url d "OH" →
      (∀ pk, (setReceiverPubkey c url pk).map (ohttp c) = some (ohttp c url)) ∧
      ∀ t : SystemTime, t.secs < (2 ^ 32 : Nat) →
        (setExp c url t).map (ohttp c) = some (ohttp c url)) ∧
    (AtMostOneToken url d "EX" →
      (∀ pk, (setReceiverPubkey c url pk).map (exp c) = some (exp c url)) ∧
      ∀ k, (setOhttp c url k).map (exp c) = some (exp c url)) ∧
    ∀ t k, ValidToken t → '1' ∉ k.toList → paramKey t ≠ k → AtMostOneToken url d k →
      (setParam url t).map (getParam · (k ++ "1")) = some (getParam url (k ++ "1")) :=
  ⟨fun h => ⟨fun k => write_frame hd (setOhttp_token c k) "RK" (by decide) (by decide) h _,
      fun _ ht => write_frame hd (setExp_token c ht) "RK" (by decide) (by decide) h _⟩,
    fun h => ⟨fun pk => write_frame hd (setReceiverPubkey_token c pk) "OH" (by decide)
        (by decide) h _,
      fun _ ht => write_frame hd (setExp_token c ht) "OH" (by decide) (by decide) h _⟩,
    fun h => ⟨fun pk => write_frame hd (setReceiverPubkey_token c pk) "EX" (by decide)
        (by decide) h _,
      fun k => write_frame hd (setOhttp_token c k) "EX" (by decide) (by decide) h _⟩,
    fun _ _ ht hk hkt hone => getParam_setParam_of_ne hd ht hk hkt hone⟩

variable (hkeys : ((tokens (url.fragment.getD "") d).map paramKey).Nodup)
include hkeys

theorem setReceiverPubkey_frame (pk : PubKey) :
    (setReceiverPubkey c url pk).map (ohttp c) = some (ohttp c url) ∧
      (setReceiverPubkey c url pk).map (exp c) = some (exp c url) :=
  ⟨write_frame hd (setReceiverPubkey_token c pk) "OH" (by decide) (by decide)
      (filter_key_length_le_one hkeys _) _,
    write_frame hd (setReceiverPubkey_token c pk) "EX" (by decide) (by decide)
      (filter_key_length_le_one hkeys _) _⟩

theorem setOhttp_frame (k : Keys) :
    (setOhttp c url k).map (receiverPubkey c) = some (receiverPubkey c url) ∧
      (setOhttp c url k).map (exp c) = some (exp c url) :=
  ⟨write_frame hd (setOhttp_token c k) "RK" (by decide) (by decide)
      (filter_key_length_le_one hkeys _) _,
    write_frame hd (setOhttp_token c k) "EX" (by decide) (by decide)
      (filter_key_length_le_one hkeys _) _⟩

theorem setExp_frame {t : SystemTime} (h : t.secs < (2 ^ 32 : Nat)) :
    (setExp c url t).map (receiverPubkey c) = some (receiverPubkey c url) ∧
      (setExp c url t).map (ohttp c) = some (ohttp c url) :=
  ⟨write_frame hd (setExp_token c h) "RK" (by decide) (by decide)
      (filter_key_length_le_one hkeys _) _,
    write_frame hd (setExp_token c h) "OH" (by decide) (by decide)
      (filter_key_length_le_one hkeys _) _⟩

end Frame

/-- Two `EX` tokens, one each of `OH` and `RK`: the getters of `RK` and `OH` are framed. -/
theorem setters_frame_other_getters_duplicate_ex :
    checkFragmentDelimiter "EX1C-EX1D-OH1Q" = .ok '-' ∧
    AtMostOneToken (exampleComUrl "EX1C-EX1D-OH1Q") '-' "RK" ∧
    AtMostOneToken (exampleComUrl "EX1C-EX1D-OH1Q") '-' "OH" ∧
    ¬AtMostOneToken (exampleComUrl "EX1C-EX1D-OH1Q") '-' "EX" ∧
    ((AtMostOneToken (exampleComUrl "EX1C-EX1D-OH1Q") '-' "RK" →
      (∀ k, (setOhttp refCodecs (exampleComUrl "EX1C-EX1D-OH1Q") k).map (receiverPubkey refCodecs) =
        some (receiverPubkey refCodecs (exampleComUrl "EX1C-EX1D-OH1Q"))) ∧
      ∀ t : SystemTime, t.secs < (2 ^ 32 : Nat) →
        (setExp refCodecs (exampleComUrl "EX1C-EX1D-OH1Q") t).map (receiverPubkey refCodecs) =
          some (receiverPubkey refCodecs (exampleComUrl "EX1C-EX1D-OH1Q"))) ∧
    (AtMostOneToken (exampleComUrl "EX1C-EX1D-OH1Q") '-' "OH" →
      (∀ pk, (setReceiverPubkey refCodecs (exampleComUrl "EX1C-EX1D-OH1Q") pk).map
        (ohttp refCodecs) = some (ohttp refCodecs (exampleComUrl "EX1C-EX1D-OH1Q"))) ∧
      ∀ t : SystemTime, t.secs < (2 ^ 32 : Nat) →
        (setExp refCodecs (exampleComUrl "EX1C-EX1D-OH1Q") t).map (ohttp refCodecs) =
          some (ohttp refCodecs (exampleComUrl "EX1C-EX1D-OH1Q"))) ∧
    (AtMostOneToken (exampleComUrl "EX1C-EX1D-OH1Q") '-' "EX" →
      (∀ pk, (setReceiverPubkey refCodecs (exampleComUrl "EX1C-EX1D-OH1Q") pk).map
        (exp refCodecs) = some (exp refCodecs (exampleComUrl "EX1C-EX1D-OH1Q"))) ∧
      ∀ k, (setOhttp refCodecs (exampleComUrl "EX1C-EX1D-OH1Q") k).map (exp refCodecs) =
        some (exp refCodecs (exampleComUrl "EX1C-EX1D-OH1Q"))) ∧
    ∀ t k, ValidToken t → '1' ∉ k.toList → paramKey t ≠ k →
      AtMostOneToken (exampleComUrl "EX1C-EX1D-OH1Q") '-' k →
      (setParam (exampleComUrl "EX1C-EX1D-OH1Q") t).map (getParam · (k ++ "1")) =
        some (getParam (exampleComUrl "EX1C-EX1D-OH1Q") (k ++ "1"))) := by
  have hd : checkFragmentDelimiter ((exampleComUrl "EX1C-EX1D-OH1Q").fragment.getD "") =
    .ok '-' := rfl
  exact ⟨hd, by decide, by decide, by decide, setters_frame_other_getters refCodecs hd⟩

/-- With two `RK` tokens, `get_param` reads the first and `set_param` keeps the last, so
`set_ohttp` changes what `RK1` reads, whatever the codecs and the keys. -/
theorem setOhttp_moves_rkParam :
    checkFragmentDelimiter "RK1-RK1QQ" = .ok '-' ∧
    getParam (exampleComUrl "RK1-RK1QQ") "RK1" = .ok (some "RK1") ∧
    ∀ {PubKey Keys : Type} (c : Codecs PubKey Keys) (k : Keys),
      (setOhttp c (exampleComUrl "RK1-RK1QQ") k).map (getParam · "RK1") =
        some (.ok (some "RK1QQ")) := by
  refine ⟨rfl, rfl, fun c k => ?_⟩
  obtain ⟨t, ⟨hv, hkey, -⟩, hw⟩ := setOhttp_token c k
  have hm := keyed_insert
    (keyed_fragmentParams (d := '-') (f := (exampleComUrl "RK1-RK1QQ").fragment.getD "") rfl) hv
  show Option.map (getParam · ("RK" ++ "1")) _ = _
  rw [hw, @setParam_eq (exampleComUrl "RK1-RK1QQ") '-' rfl t hv, Option.map_some',
    getParam_render _ hm (entries_insert_ne_nil _ _ _) (by decide), BTreeMap.get?_insert,
    if_neg (by rw [hkey]; decide)]
  rfl

section Laws

variable {PubKey Keys : Type} (c : Codecs PubKey Keys) {url : Url} {d : Char}
  (hd : checkFragmentDelimiter (url.fragment.getD "") = .ok d)
include hd

/-- **The setters commute**: from any URL whose fragment `check_fragment_delimiter`
accepts, any two of `set_receiver_pubkey`, `set_ohttp` and `set_exp` give the same URL in
either order, or panic in both. -/
theorem setters_commute :
    (∀ pk k, (setReceiverPubkey c url pk).bind (setOhttp c · k) =
      (setOhttp c url k).bind (setReceiverPubkey c · pk)) ∧
    (∀ pk t, (setReceiverPubkey c url pk).bind (setExp c · t) =
      (setExp c url t).bind (setReceiverPubkey c · pk)) ∧
    (∀ k t, (setOhttp c url k).bind (setExp c · t) = (setExp c url t).bind (setOhttp c · k)) :=
  ⟨fun pk k => WritesTagged.comm hd (.inr (setReceiverPubkey_token c pk))
      (.inr (setOhttp_token c k)) (by decide),
    fun pk t => WritesTagged.comm hd (.inr (setReceiverPubkey_token c pk))
      (writesTagged_setExp c t) (by decide),
    fun k t => WritesTagged.comm hd (.inr (setOhttp_token c k)) (writesTagged_setExp c t)
      (by decide)⟩

/-- **A second call of a setter overrides the first**: from any URL whose fragment
`check_fragment_delimiter` accepts, a setter called twice gives the URL of its second call
alone (for `set_exp`, when the first call returns). -/
theorem setters_last_wins :
    (∀ pk pk', (setReceiverPubkey c url pk).bind (setReceiverPubkey c · pk') =
      setReceiverPubkey c url pk') ∧
    (∀ k k', (setOhttp c url k).bind (setOhttp c · k') = setOhttp c url k') ∧
    (∀ t t' : SystemTime, t.secs < (2 ^ 32 : Nat) →
      (setExp c url t).bind (setExp c · t') = setExp c url t') :=
  ⟨fun pk pk' => WritesTagged.last_wins hd (setReceiverPubkey_token c pk)
      (.inr (setReceiverPubkey_token c pk')),
    fun k k' => WritesTagged.last_wins hd (setOhttp_token c k) (.inr (setOhttp_token c k')),
    fun _ t' h => WritesTagged.last_wins hd (setExp_token c h) (writesTagged_setExp c t')⟩

end Laws

theorem setters_commute_legacy :
    checkFragmentDelimiter (legacyUrl.fragment.getD "") = .ok '+' ∧
    ((∀ pk k, (setReceiverPubkey refCodecs legacyUrl pk).bind (setOhttp refCodecs · k) =
      (setOhttp refCodecs legacyUrl k).bind (setReceiverPubkey refCodecs · pk)) ∧
    (∀ pk t, (setReceiverPubkey refCodecs legacyUrl pk).bind (setExp refCodecs · t) =
      (setExp refCodecs legacyUrl t).bind (setReceiverPubkey refCodecs · pk)) ∧
    (∀ k t, (setOhttp refCodecs legacyUrl k).bind (setExp refCodecs · t) =
      (setExp refCodecs legacyUrl t).bind (setOhttp refCodecs · k))) :=
  ⟨rfl, setters_commute refCodecs rfl⟩

theorem setters_last_wins_legacy :
    checkFragmentDelimiter (legacyUrl.fragment.getD "") = .ok '+' ∧
    ((∀ pk pk', (setReceiverPubkey refCodecs legacyUrl pk).bind (setReceiverPubkey refCodecs · pk') =
      setReceiverPubkey refCodecs legacyUrl pk') ∧
    (∀ k k', (setOhttp refCodecs legacyUrl k).bind (setOhttp refCodecs · k') =
      setOhttp refCodecs legacyUrl k') ∧
    (∀ t t' : SystemTime, t.secs < (2 ^ 32 : Nat) →
      (setExp refCodecs legacyUrl t).bind (setExp refCodecs · t') = setExp refCodecs legacyUrl t')) :=
  ⟨rfl, setters_last_wins refCodecs rfl⟩

end PayjoinUri.UrlExt
