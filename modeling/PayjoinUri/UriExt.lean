import PayjoinUri.Serialize

/-! `UriExt::check_pj_supported`, which makes a parsed `bitcoin:` URI a payjoin URI when
its extras are `Supported`. It moves the address, amount, label and message into a new URI
and returns the old one without extras otherwise (`checkPjSupported_eq_ok`,
`checkPjSupported_eq_error`). Over a URI whose extras the parse of its parameters returned,
it returns `Ok` exactly when a parameter has the key `pj` (`checkPjSupported_deserialize`). -/

namespace PayjoinUri.UriExt

open UrlCrate UrlParse Deserialize Serialize

/-- `bitcoin_uri::Uri`, by the fields `check_pj_supported` reads and writes: the address is
left abstract and the amount is in satoshis. -/
structure BitcoinUri (Address Extras : Type) where
  address : Address
  amount : Option UInt64
  label : Option Param
  message : Option Param
  extras : Extras

namespace BitcoinUri

variable {Address Extras Extras' : Type}

/-- `Uri::with_extras`. -/
def withExtras (address : Address) (extras : Extras) : BitcoinUri Address Extras :=
  ⟨address, none, none, none, extras⟩

/-- `Uri::new`, whose extras are `NoExtras`. -/
def new (address : Address) : BitcoinUri Address Unit := withExtras address ()

/-- The same URI with other extras. -/
def replaceExtras (uri : BitcoinUri Address Extras) (extras : Extras') :
    BitcoinUri Address Extras' :=
  ⟨uri.address, uri.amount, uri.label, uri.message, extras⟩

end BitcoinUri

variable {Address : Type}

/-- `UriExt::check_pj_supported`, without the `Box` of its error. -/
def checkPjSupported (uri : BitcoinUri Address MaybePayjoinExtras) :
    Except (BitcoinUri Address Unit) (BitcoinUri Address PayjoinExtras) :=
  match uri.extras with
  | .supported payjoin =>
    .ok { BitcoinUri.withExtras uri.address payjoin with
          amount := uri.amount, label := uri.label, message := uri.message }
  | .unsupported =>
    .error { BitcoinUri.new uri.address with
             amount := uri.amount, label := uri.label, message := uri.message }

/-! ## What `check_pj_supported` moves -/

theorem checkPjSupported_eq_ok {uri : BitcoinUri Address MaybePayjoinExtras}
    {pj : BitcoinUri Address PayjoinExtras} :
    checkPjSupported uri = .ok pj ↔ uri = pj.replaceExtras (.supported pj.extras) := by
  obtain ⟨a, am, l, m, e⟩ := uri
  obtain ⟨a', am', l', m', e'⟩ := pj
  cases e <;> simp [checkPjSupported, BitcoinUri.withExtras, BitcoinUri.replaceExtras, eq_comm]

theorem checkPjSupported_eq_error {uri : BitcoinUri Address MaybePayjoinExtras}
    {e : BitcoinUri Address Unit} :
    checkPjSupported uri = .error e ↔ uri = e.replaceExtras .unsupported := by
  obtain ⟨a, am, l, m, x⟩ := uri
  obtain ⟨a', am', l', m', ⟨⟩⟩ := e
  cases x <;> simp [checkPjSupported, BitcoinUri.new, BitcoinUri.withExtras,
    BitcoinUri.replaceExtras, eq_comm]

/-! ## Over the parse of the parameters -/

theorem pjValues_ne_nil_iff {ps : List (String × Param)} :
    pjValues ps ≠ [] ↔ ∃ v, ("pj", v) ∈ ps := by
  simp [pjValues, List.filter_eq_nil_iff]

/-- **A URI is a payjoin URI exactly when its parameters hold a `pj`.** For a URI whose
extras are what the parse of its parameters returned, `check_pj_supported` returns `Ok`
exactly when some parameter has the key `pj`, and then carries the endpoint `Url::parse`
gave for the one `pj` value; either way the result keeps the address, amount, label and
message. -/
theorem checkPjSupported_deserialize (env : Env) {ps : List (String × Param)}
    {uri : BitcoinUri Address MaybePayjoinExtras} (h : deserialize env ps = .ok uri.extras) :
    ((∃ pj, checkPjSupported uri = .ok pj) ↔ ∃ v, ("pj", v) ∈ ps) ∧
    (∀ pj, checkPjSupported uri = .ok pj → uri = pj.replaceExtras (.supported pj.extras) ∧
      ∃ v s, pjValues ps = [v] ∧ v.toStr = some s ∧ env.parse s = .ok pj.extras.endpoint) ∧
    ∀ e, checkPjSupported uri = .error e → uri = e.replaceExtras .unsupported := by
  refine ⟨?_, fun pj hpj => ?_, fun e he => checkPjSupported_eq_error.1 he⟩
  · rw [← pjValues_ne_nil_iff]
    rcases hx : uri.extras with ⟨u, os⟩ | _ <;> rw [hx] at h
    · obtain ⟨⟨v, hv, -⟩, -⟩ := (deserialize_supported env ps u os).1 h
      simp [checkPjSupported, hx, hv]
    · simp [checkPjSupported, hx, ((deserialize_unsupported env ps).1 h).1]
  · have hu := checkPjSupported_eq_ok.1 hpj
    refine ⟨hu, ?_⟩
    rw [hu] at h
    obtain ⟨⟨v, hv, s, hs, hp, -⟩, -⟩ := (deserialize_supported env ps _ _).1 h
    exact ⟨v, s, hv, hs, hp⟩

/-- A URI for the address `bc1q` with an amount and `pj=https://example/`, as `bitcoin_uri`
hands it to `check_pj_supported`. -/
def exampleUri : BitcoinUri String MaybePayjoinExtras :=
  ⟨"bc1q", some 1000, none, none, .supported ⟨exampleEndpoint, .enabled⟩⟩

theorem checkPjSupported_deserialize_example :
    deserialize ⟨parsePlain, fun _ => false, true⟩ [("pj", .str "https://example/")] =
      .ok exampleUri.extras ∧
    ((∃ pj, checkPjSupported exampleUri = .ok pj) ↔
      ∃ v, ("pj", v) ∈ [("pj", Param.str "https://example/")]) ∧
    (∀ pj, checkPjSupported exampleUri = .ok pj →
      exampleUri = pj.replaceExtras (.supported pj.extras) ∧
      ∃ v s, pjValues [("pj", .str "https://example/")] = [v] ∧ v.toStr = some s ∧
        parsePlain s = .ok pj.extras.endpoint) ∧
    ∀ e, checkPjSupported exampleUri = .error e → exampleUri = e.replaceExtras .unsupported :=
  ⟨rfl, checkPjSupported_deserialize ⟨parsePlain, fun _ => false, true⟩ rfl⟩

end PayjoinUri.UriExt
