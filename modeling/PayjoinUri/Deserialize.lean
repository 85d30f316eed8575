import PayjoinUri.UrlExt
import PayjoinUri.UrlParse

/-! The `pj` and `pjos` query parameters: `parse_with_fragment`, the two steps of
`DeserializationState` (`deserialize_temp` and `finalize`), and the run `bitcoin_uri`
makes of them. The `pj` and `pjos` fields of the state are filled independently, so a
run is the product of a run over the `pj` values and one over the `pjos` values
(`toOption_deserializeParams`); from it, `deserialize_iff` says which parameter lists
give which result, that unknown keys are inert and that the order does not matter. -/

namespace PayjoinUri.Deserialize

open Text UrlCrate Fragment UrlParse

/-! ## Values -/

/-- `crate::output_substitution::OutputSubstitution`. -/
inductive OutputSubstitution where
  | enabled
  | disabled
  deriving DecidableEq, Repr

/-- `PayjoinExtras`. -/
structure PayjoinExtras where
  endpoint : Url
  outputSubstitution : OutputSubstitution
  deriving DecidableEq, Repr

/-- `MaybePayjoinExtras`. -/
inductive MaybePayjoinExtras where
  | supported (extras : PayjoinExtras)
  | unsupported
  deriving DecidableEq, Repr

/-- `MaybePayjoinExtras::pj_is_supported`. -/
def MaybePayjoinExtras.pjIsSupported : MaybePayjoinExtras → Bool
  | .supported _ => true
  | .unsupported => false

/-- `BadEndpointError` of `uri/error.rs`, by the variants this code builds. -/
inductive BadEndpointError where
  | urlParse (e : ParseError)
  | lowercaseFragment
  deriving DecidableEq, Repr

/-- `InternalPjParseError` of `uri/error.rs`, by the variants this code builds. -/
inductive InternalPjParseError where
  | badPjOs
  | duplicateParams (param : String)
  | missingEndpoint
  | notUtf8
  | badEndpoint (e : BadEndpointError)
  | unsecureEndpoint
  deriving DecidableEq, Repr

/-- `PjParseError`, which wraps the internal error. -/
structure PjParseError where
  internal : InternalPjParseError
  deriving DecidableEq, Repr

/-- `bitcoin_uri::Param`: a query value, as text or as bytes still to be read as UTF-8. -/
inductive Param where
  | str (s : String)
  | bytes (b : List UInt8)

/-- `Cow::<str>::try_from(param)`: `None` when the bytes are not UTF-8. -/
def Param.toStr : Param → Option String
  | .str s => some s
  | .bytes b => String.fromUTF8? ⟨b.toArray⟩

/-- `bitcoin_uri::de::ParamKind`. -/
inductive ParamKind where
  | known
  | unknown
  deriving DecidableEq, Repr

/-- What parsing an endpoint depends on outside this crate: `Url::parse`, the Unicode
`Lowercase` property above U+007F (for `char::is_lowercase`), and whether the crate is
built with the `v2` feature. -/
structure Env where
  parse : String → Except ParseError Url
  lowercase : Char → Bool
  v2 : Bool

/-! ## Endpoints -/

/-- No character of the fragment, if any, is lower case. -/
def LowercaseFree (lowercase : Char → Bool) (u : Url) : Prop :=
  ∀ f, u.fragment = some f → ∀ c ∈ f.toList, isLowercase lowercase c = false

/-- `url_ext::parse_with_fragment`. -/
def parseWithFragment (parse : String → Except ParseError Url) (lowercase : Char → Bool)
    (endpoint : String) : Except BadEndpointError Url := do
  let url ← (parse endpoint).mapError .urlParse
  match url.fragment with
  | some fragment => if fragment.toList.any (isLowercase lowercase) then throw .lowercaseFragment
  | none => pure ()
  pure url

/-- How `deserialize_temp` parses the `pj` value, with or without the `v2` feature. -/
def parseEndpoint (env : Env) (endpoint : String) : Except InternalPjParseError Url :=
  if env.v2 then (parseWithFragment env.parse env.lowercase endpoint).mapError .badEndpoint
  else (env.parse endpoint).mapError fun e => .badEndpoint (.urlParse e)

theorem parseWithFragment_ok {parse : String → Except ParseError Url} {lowercase : Char → Bool}
    {s : String} {u : Url} :
    parseWithFragment parse lowercase s = .ok u ↔ parse s = .ok u ∧ LowercaseFree lowercase u := by
  unfold parseWithFragment LowercaseFree
  cases hp : parse s with
  | error e => exact ⟨nofun, fun ⟨h, _⟩ => nomatch h⟩
  | ok url =>
    cases hf : url.fragment with
    | none =>
      simp only [Except.mapError, bind, Except.bind, hf, pure, Except.pure, Except.ok.injEq]
      exact ⟨fun h => ⟨h, fun f hf' => by rw [← h, hf] at hf'; cases hf'⟩, fun ⟨h, _⟩ => h⟩
    | some f =>
      by_cases hl : f.toList.any (isLowercase lowercase)
      · obtain ⟨c, hc, hcl⟩ := List.any_eq_true.1 hl
        simp only [Except.mapError, bind, Except.bind, hf, hl, ↓reduceIte, throw, throwThe,
          MonadExceptOf.throw, Except.ok.injEq]
        exact ⟨nofun, fun ⟨h, hfree⟩ => by subst h; simp [hfree f hf c hc] at hcl⟩
      · have hfree : ∀ c ∈ f.toList, isLowercase lowercase c = false := fun c hc =>
          Bool.eq_false_iff.2 fun h => hl (List.any_eq_true.2 ⟨c, hc, h⟩)
        simp only [Except.mapError, bind, Except.bind, hf, hl, Bool.false_eq_true, ↓reduceIte,
          pure, Except.pure, Except.ok.injEq]
        exact ⟨fun h => ⟨h, fun f' hf' => by rw [← h, hf] at hf'; cases hf'; exact hfree⟩,
          fun ⟨h, _⟩ => h⟩

theorem parseEndpoint_ok {env : Env} {s : String} {u : Url} :
    parseEndpoint env s = .ok u ↔
      env.parse s = .ok u ∧ (env.v2 = true → LowercaseFree env.lowercase u) := by
  unfold parseEndpoint
  cases hv : env.v2
  · cases hp : env.parse s <;> simp [Except.mapError]
  · rw [if_pos rfl]
    simp only [true_implies]
    rw [← parseWithFragment_ok]
    cases parseWithFragment env.parse env.lowercase s <;> simp [Except.mapError]

/-! ## Lower case and the fragment check -/

/-- Every fragment `check_fragment_delimiter` accepts is free of lower case. -/
theorem checkFragmentDelimiter_lowercaseFree (lowercase : Char → Bool) {f : String} {d : Char}
    (h : checkFragmentDelimiter f = .ok d) : ∀ c ∈ f.toList, isLowercase lowercase c = false :=
  fun c hc => isLowercase_of_lt lowercase (by
    have := (fragmentChar_iff c).1 ((checkFragmentDelimiter_ok h).1 c hc)
    rw [tokenChar_iff] at this
    omega)

/-- **What `parse_with_fragment` checks**: it accepts exactly the parsed URLs whose
fragment has no lower-case character, which every fragment `check_fragment_delimiter`
accepts is free of. -/
theorem parseWithFragment_ok_iff (parse : String → Except ParseError Url)
    (lowercase : Char → Bool) (s : String) (u : Url) :
    (parseWithFragment parse lowercase s = .ok u ↔ parse s = .ok u ∧ LowercaseFree lowercase u) ∧
    ∀ f d, checkFragmentDelimiter f = .ok d → ∀ c ∈ f.toList, isLowercase lowercase c = false :=
  ⟨parseWithFragment_ok, fun _ _ => checkFragmentDelimiter_lowercaseFree lowercase⟩

/-- `https://example/#-+`, as `Url::parse` returns it. -/
def ambiguousEndpoint : Url :=
  ⟨"https", "", none, some (.domain "example"), none, "/", none, some "-+"⟩

/-- `parse_with_fragment` accepts a fragment holding both delimiters, and one holding `!`;
on the first the setters panic and the getters fail with `InvalidFragment`. -/
theorem parseWithFragment_admits_unchecked :
    parseWithFragment parsePlain (fun _ => false) "https://example/#-+" = .ok ambiguousEndpoint ∧
    checkFragmentDelimiter "-+" = .error .ambiguousDelimiter ∧
    UrlExt.setOhttp Collaborators.refCodecs ambiguousEndpoint ⟨"", by decide⟩ = none ∧
    UrlExt.ohttp Collaborators.refCodecs ambiguousEndpoint =
      .error (.invalidFragment .ambiguousDelimiter) ∧
    parseWithFragment parsePlain (fun _ => false) "https://example/#!" =
      .ok { ambiguousEndpoint with fragment := some "!" } ∧
    checkFragmentDelimiter "!" = .error (.invalidChar '!') :=
  ⟨rfl, rfl, rfl, rfl, rfl, rfl⟩

/-! ## `DeserializationState` -/

/-- `DeserializationState`, with the `Default` of its two `None` fields. -/
structure DeserializationState where
  pj : Option Url := none
  pjos : Option OutputSubstitution := none
  deriving DecidableEq, Repr

/-- `DeserializationState::is_param_known`. -/
def isParamKnown (param : String) : Bool := param == "pj" || param == "pjos"

/-- The `"pj"` arms of `deserialize_temp`. -/
def deserializePj (env : Env) (pj : Option Url) (value : Param) :
    Except InternalPjParseError Url :=
  match pj with
  | none => do
    let endpoint ← match value.toStr with
      | some s => pure s
      | none => throw .notUtf8
    parseEndpoint env endpoint
  | some _ => throw (.duplicateParams "pj")

/-- The `"pjos"` arms of `deserialize_temp`. -/
def deserializePjos (pjos : Option OutputSubstitution) (value : Param) :
    Except InternalPjParseError OutputSubstitution :=
  match pjos with
  | none => do
    let v ← match value.toStr with
      | some s => pure s
      | none => throw .badPjOs
    match v with
    | "0" => pure .disabled
    | "1" => pure .enabled
    | _ => throw .badPjOs
  | some _ => throw (.duplicateParams "pjos")

/-- `DeserializationState::deserialize_temp`. -/
def deserializeTemp (env : Env) (st : DeserializationState) (key : String) (value : Param) :
    Except PjParseError (ParamKind × DeserializationState) :=
  match key with
  | "pj" => ((deserializePj env st.pj value).map fun url =>
      (.known, { st with pj := some url })).mapError .mk
  | "pjos" => ((deserializePjos st.pjos value).map fun os =>
      (.known, { st with pjos := some os })).mapError .mk
  | _ => .ok (.unknown, st)

/-- The transport check of `finalize`: `https`, or `http` to an onion domain. -/
def secureEndpoint (u : Url) : Prop :=
  u.scheme = "https" ∨ u.scheme = "http" ∧ endsWith (u.domain.getD "") ".onion"

instance : DecidablePred secureEndpoint := fun _ => inferInstanceAs (Decidable (_ ∨ _))

/-- `DeserializationState::finalize`. -/
def finalize (st : DeserializationState) : Except PjParseError MaybePayjoinExtras :=
  match st.pj, st.pjos with
  | none, none => .ok .unsupported
  | none, some _ => .error ⟨.missingEndpoint⟩
  | some endpoint, pjos =>
    if secureEndpoint endpoint then
      .ok (.supported ⟨endpoint, pjos.getD .enabled⟩)
    else .error ⟨.unsecureEndpoint⟩

/-- Modelled from the spec: `bitcoin_uri` feeds the parameters in order to
`deserialize_temp` and stops at the first error. -/
def deserializeParams (env : Env) :
    DeserializationState → List (String × Param) → Except PjParseError DeserializationState
  | st, [] => .ok st
  | st, (key, value) :: ps =>
    match deserializeTemp env st key value with
    | .ok (_, st') => deserializeParams env st' ps
    | .error e => .error e

/-- Modelled from the spec: the run from the default state, then `finalize`. -/
def deserialize (env : Env) (ps : List (String × Param)) : Except PjParseError MaybePayjoinExtras :=
  do finalize (← deserializeParams env {} ps)

/-! ## One step -/

theorem mapError_map_eq_ok {ε ε' α β : Type} {x : Except ε α} {f : α → β} {g : ε → ε'} {b : β} :
    (x.map f).mapError g = .ok b ↔ ∃ a, x = .ok a ∧ f a = b := by
  cases x <;> simp [Except.map, Except.mapError]

section Steps

variable (env : Env)

theorem deserializeTemp_pj (st : DeserializationState) (value : Param) :
    deserializeTemp env st "pj" value = ((deserializePj env st.pj value).map fun url =>
      (.known, { st with pj := some url })).mapError .mk := rfl

theorem deserializeTemp_pjos (st : DeserializationState) (value : Param) :
    deserializeTemp env st "pjos" value = ((deserializePjos st.pjos value).map fun os =>
      (.known, { st with pjos := some os })).mapError .mk := rfl

theorem deserializeTemp_unknown (st : DeserializationState) {key : String}
    (h : isParamKnown key = false) (value : Param) :
    deserializeTemp env st key value = .ok (.unknown, st) := by
  have h1 : key ≠ "pj" := fun e => by simp [e, isParamKnown] at h
  have h2 : key ≠ "pjos" := fun e => by simp [e, isParamKnown] at h
  unfold deserializeTemp
  split <;> simp_all

/-- What one call of `deserialize_temp` can do when it succeeds. -/
theorem deserializeTemp_cases {st st' : DeserializationState} {key : String} {value : Param}
    {kind : ParamKind} (h : deserializeTemp env st key value = .ok (kind, st')) :
    key = "pj" ∧ kind = .known ∧
      (∃ u, deserializePj env st.pj value = .ok u ∧ st' = { st with pj := some u }) ∨
    key = "pjos" ∧ kind = .known ∧
      (∃ os, deserializePjos st.pjos value = .ok os ∧ st' = { st with pjos := some os }) ∨
    isParamKnown key = false ∧ kind = .unknown ∧ st' = st := by
  by_cases hpj : key = "pj"
  · subst hpj
    obtain ⟨u, hu, he⟩ := mapError_map_eq_ok.1 ((deserializeTemp_pj env st value).symm.trans h)
    cases he
    exact .inl ⟨rfl, rfl, u, hu, rfl⟩
  by_cases hpjos : key = "pjos"
  · subst hpjos
    obtain ⟨os, hos, he⟩ := mapError_map_eq_ok.1 ((deserializeTemp_pjos env st value).symm.trans h)
    cases he
    exact .inr (.inl ⟨rfl, rfl, os, hos, rfl⟩)
  have hk : isParamKnown key = false := by simp [isParamKnown, hpj, hpjos]
  rw [deserializeTemp_unknown env st hk, Except.ok.injEq, Prod.mk.injEq] at h
  exact .inr (.inr ⟨hk, h.1.symm, h.2.symm⟩)

/-- **`deserialize_temp` reports a key known exactly when `is_param_known` does**; it
leaves the state alone on any other key, and a known key changes only its own field. -/
theorem deserializeTemp_kind {st st' : DeserializationState} {key : String} {value : Param}
    {kind : ParamKind} (h : deserializeTemp env st key value = .ok (kind, st')) :
    (kind = .known ↔ isParamKnown key = true) ∧ (isParamKnown key = false → st' = st) ∧
      (key = "pj" → st'.pjos = st.pjos) ∧ (key = "pjos" → st'.pj = st.pj) := by
  rcases deserializeTemp_cases env h with
    ⟨rfl, rfl, u, -, rfl⟩ | ⟨rfl, rfl, os, -, rfl⟩ | ⟨hk, rfl, rfl⟩
  · exact ⟨iff_of_true rfl rfl, nofun, fun _ => rfl, fun h => absurd h (by decide)⟩
  · exact ⟨iff_of_true rfl rfl, nofun, fun h => absurd h (by decide), fun _ => rfl⟩
  · exact ⟨iff_of_false nofun (by simp [hk]), fun _ => rfl, fun _ => rfl, fun _ => rfl⟩

/-- A field `deserialize_temp` has set stays as it is: a second value of it is an error. -/
theorem deserializeTemp_keeps_set {st st' : DeserializationState} {key : String}
    {value : Param} {kind : ParamKind} (h : deserializeTemp env st key value = .ok (kind, st')) :
    (st.pj.isSome → st'.pj = st.pj) ∧ (st.pjos.isSome → st'.pjos = st.pjos) := by
  rcases deserializeTemp_cases env h with
    ⟨-, -, u, hu, rfl⟩ | ⟨-, -, os, hos, rfl⟩ | ⟨-, -, rfl⟩
  · refine ⟨fun hs => ?_, fun _ => rfl⟩
    obtain ⟨u', hu'⟩ := Option.isSome_iff_exists.1 hs
    rw [hu'] at hu
    cases hu
  · refine ⟨fun _ => rfl, fun hs => ?_⟩
    obtain ⟨os', hos'⟩ := Option.isSome_iff_exists.1 hs
    rw [hos'] at hos
    cases hos
  · exact ⟨fun _ => rfl, fun _ => rfl⟩

/-- **Once a run has set `pj` or `pjos`, no later parameter changes it**, from any state. -/
theorem deserializeParams_keeps_set {st st' : DeserializationState}
    {ps : List (String × Param)} (h : deserializeParams env st ps = .ok st') :
    (st.pj.isSome → st'.pj = st.pj) ∧ (st.pjos.isSome → st'.pjos = st.pjos) := by
  induction ps generalizing st with
  | nil =>
    cases h
    exact ⟨fun _ => rfl, fun _ => rfl⟩
  | cons p ps ih =>
    obtain ⟨key, value⟩ := p
    rw [deserializeParams] at h
    split at h
    · next _ st₁ hs =>
      obtain ⟨h₁, h₂⟩ := deserializeTemp_keeps_set env hs
      obtain ⟨i₁, i₂⟩ := ih h
      exact ⟨fun hp => (i₁ (by rwa [h₁ hp])).trans (h₁ hp),
        fun hp => (i₂ (by rwa [h₂ hp])).trans (h₂ hp)⟩
    · cases h

theorem deserializeParams_keeps_set_pjos :
    deserializeParams ⟨parsePlain, fun _ => false, true⟩ { pjos := some .disabled }
        [("pj", .str "https://example/"), ("amount", .str "1")] =
      .ok ⟨some ⟨"https", "", none, some (.domain "example"), none, "/", none, none⟩,
        some .disabled⟩ ∧
    (((none : Option Url).isSome →
        some (⟨"https", "", none, some (.domain "example"), none, "/", none, none⟩ : Url) = none) ∧
      ((some OutputSubstitution.disabled).isSome →
        some OutputSubstitution.disabled = some OutputSubstitution.disabled)) :=
  ⟨rfl, @deserializeParams_keeps_set ⟨parsePlain, fun _ => false, true⟩ { pjos := some .disabled }
    _ [("pj", .str "https://example/"), ("amount", .str "1")] rfl⟩

theorem deserializePj_none {value : Param} {u : Url} :
    deserializePj env none value = .ok u ↔
      ∃ s, value.toStr = some s ∧ parseEndpoint env s = .ok u := by
  unfold deserializePj
  cases value.toStr with
  | none => exact ⟨nofun, fun ⟨_, h, _⟩ => nomatch h⟩
  | some s => exact ⟨fun h => ⟨s, rfl, h⟩, fun ⟨_, h, hp⟩ => by cases h; exact hp⟩

theorem deserializePjos_none {value : Param} {os : OutputSubstitution} :
    deserializePjos none value = .ok os ↔
      value.toStr = some "0" ∧ os = .disabled ∨ value.toStr = some "1" ∧ os = .enabled := by
  unfold deserializePjos
  cases value.toStr with
  | none => exact ⟨nofun, by rintro (⟨h, -⟩ | ⟨h, -⟩) <;> cases h⟩
  | some s =>
    simp only [bind, Except.bind, pure, Except.pure, Option.some.injEq]
    split <;> simp_all [eq_comm, throw, throwThe, MonadExceptOf.throw]

theorem finalize_supported {st : DeserializationState} {u : Url} {os : OutputSubstitution} :
    finalize st = .ok (.supported ⟨u, os⟩) ↔
      st.pj = some u ∧ secureEndpoint u ∧ os = st.pjos.getD .enabled := by
  obtain ⟨pj, pjos⟩ := st
  cases pj with
  | none => cases pjos <;> simp [finalize]
  | some e =>
    unfold finalize
    by_cases he : secureEndpoint e
    · simp only [he, ↓reduceIte, Except.ok.injEq, MaybePayjoinExtras.supported.injEq,
        PayjoinExtras.mk.injEq, Option.some.injEq]
      constructor
      · rintro ⟨rfl, rfl⟩
        exact ⟨rfl, he, rfl⟩
      · rintro ⟨rfl, -, rfl⟩
        exact ⟨rfl, rfl⟩
    · simp only [he, ↓reduceIte, Option.some.injEq]
      exact ⟨nofun, fun ⟨h, hs, _⟩ => (he (h ▸ hs)).elim⟩

theorem finalize_unsupported {st : DeserializationState} :
    finalize st = .ok .unsupported ↔ st.pj = none ∧ st.pjos = none := by
  obtain ⟨pj, pjos⟩ := st
  cases pj with
  | none => cases pjos <;> simp [finalize]
  | some e =>
    simp only [finalize]
    split_ifs <;> simp

end Steps

/-! ## The run as a product -/

/-- The `pj` values of a parameter list, in order. -/
def pjValues (ps : List (String × Param)) : List Param := (ps.filter (·.1 == "pj")).map (·.2)

/-- The `pjos` values of a parameter list, in order. -/
def pjosValues (ps : List (String × Param)) : List Param :=
  (ps.filter (·.1 == "pjos")).map (·.2)

section Run

variable (env : Env)

/-- The run of one field over its values: each through the field's arms of
`deserialize_temp`, stopping at the first error. -/
def runField {α : Type} (step : Option α → Param → Except InternalPjParseError α) :
    Option α → List Param → Option (Option α)
  | a, [] => some a
  | a, v :: vs => (step a v).toOption.bind fun b => runField step (some b) vs

/-- **A run is the product of its `pj` run and its `pjos` run.** -/
theorem toOption_deserializeParams (st : DeserializationState) (ps : List (String × Param)) :
    (deserializeParams env st ps).toOption =
      (runField (deserializePj env) st.pj (pjValues ps)).bind fun pj =>
        (runField deserializePjos st.pjos (pjosValues ps)).map fun pjos => ⟨pj, pjos⟩ := by
  induction ps generalizing st with
  | nil => rfl
  | cons p ps ih =>
    obtain ⟨key, value⟩ := p
    by_cases hpj : key = "pj"
    · subst hpj
      simp only [deserializeParams, deserializeTemp_pj, pjValues, pjosValues, List.filter_cons,
        beq_self_eq_true, ↓reduceIte, List.map_cons, runField,
        show ("pj" == "pjos") = false from rfl, Bool.false_eq_true]
      cases deserializePj env st.pj value with
      | error e => rfl
      | ok url => exact ih _
    · by_cases hpjos : key = "pjos"
      · subst hpjos
        simp only [deserializeParams, deserializeTemp_pjos, pjValues, pjosValues, List.filter_cons,
          beq_self_eq_true, ↓reduceIte, List.map_cons, runField,
          show ("pjos" == "pj") = false from rfl, Bool.false_eq_true]
        cases deserializePjos st.pjos value with
        | error e => simp [Except.map, Except.mapError, Except.toOption]
        | ok os => exact ih _
      · have hk : isParamKnown key = false := by simp [isParamKnown, hpj, hpjos]
        simp only [deserializeParams, deserializeTemp_unknown env st hk, pjValues, pjosValues,
          List.filter_cons, beq_iff_eq, hpj, hpjos, ↓reduceIte]
        exact ih st

section Field

variable {α : Type} {step : Option α → Param → Except InternalPjParseError α}
  (hdup : ∀ a v, (step (some a) v).toOption = none)
include hdup

/-- A second value of a field is an error. -/
theorem runField_cons_cons (v w : Param) (vs : List Param) :
    runField step none (v :: w :: vs) = none := by
  simp only [runField]
  cases (step none v).toOption with
  | none => rfl
  | some b => simp [hdup]

theorem runField_eq_some {vs : List Param} {a : Option α} :
    runField step none vs = some a ↔
      vs = [] ∧ a = none ∨ ∃ v b, vs = [v] ∧ step none v = .ok b ∧ a = some b := by
  match vs with
  | [] => simp [runField, eq_comm]
  | [v] =>
    simp only [runField, List.cons.injEq, and_true, exists_eq_left', reduceCtorEq, false_and,
      false_or]
    cases h : step none v <;> simp [Except.toOption, eq_comm, h]
  | v :: w :: vs => simp [runField_cons_cons hdup]

theorem runField_perm {vs ws : List Param} (h : vs.Perm ws) :
    runField step none vs = runField step none ws := by
  match vs, ws, h with
  | [], _, h => rw [h.nil_eq]
  | [_], _, h => rw [List.singleton_perm.1 h]
  | _ :: _ :: _, [], h => exact absurd h.length_eq (by simp)
  | _ :: _ :: _, [_], h => exact absurd h.length_eq (by simp)
  | _ :: _ :: _, _ :: _ :: _, _ => rw [runField_cons_cons hdup, runField_cons_cons hdup]

end Field

theorem deserializePj_dup (u : Url) (v : Param) : (deserializePj env (some u) v).toOption = none :=
  rfl

theorem deserializePjos_dup (os : OutputSubstitution) (v : Param) :
    (deserializePjos (some os) v).toOption = none := rfl

end Run

/-! ## Whole runs -/

section Whole

variable (env : Env) (ps : List (String × Param))

theorem toOption_deserialize :
    (deserialize env ps).toOption =
      (deserializeParams env {} ps).toOption.bind fun st => (finalize st).toOption := by
  unfold deserialize
  cases deserializeParams env {} ps <;> rfl

theorem toOption_eq_some {ε β : Type} {x : Except ε β} {b : β} :
    x.toOption = some b ↔ x = .ok b := by
  cases x <;> simp [Except.toOption]

/-- The result, read through the runs of the two fields. -/
theorem deserialize_eq_ok {x : MaybePayjoinExtras} :
    deserialize env ps = .ok x ↔
      ∃ pj pjos, runField (deserializePj env) none (pjValues ps) = some pj ∧
        runField deserializePjos none (pjosValues ps) = some pjos ∧
        finalize ⟨pj, pjos⟩ = .ok x := by
  rw [← toOption_eq_some, toOption_deserialize, toOption_deserializeParams]
  simp only [Option.bind_eq_some, Option.map_eq_some', toOption_eq_some]
  constructor
  · rintro ⟨_, ⟨pj, hpj, pjos, hpjos, rfl⟩, hf⟩
    exact ⟨pj, pjos, hpj, hpjos, hf⟩
  · rintro ⟨pj, pjos, hpj, hpjos, hf⟩
    exact ⟨_, ⟨pj, hpj, pjos, hpjos, rfl⟩, hf⟩

theorem deserialize_supported (u : Url) (os : OutputSubstitution) :
    deserialize env ps = .ok (.supported ⟨u, os⟩) ↔
      (∃ v, pjValues ps = [v] ∧ ∃ s, v.toStr = some s ∧ env.parse s = .ok u ∧
        (env.v2 = true → LowercaseFree env.lowercase u)) ∧
      secureEndpoint u ∧
      (pjosValues ps = [] ∧ os = .enabled ∨
        ∃ o, pjosValues ps = [o] ∧
          (o.toStr = some "0" ∧ os = .disabled ∨ o.toStr = some "1" ∧ os = .enabled)) := by
  rw [deserialize_eq_ok]
  simp only [finalize_supported, runField_eq_some (deserializePj_dup env),
    runField_eq_some deserializePjos_dup]
  constructor
  · rintro ⟨pj, pjos, hpj, hpjos, hu, hsec, rfl⟩
    rcases hpj with ⟨-, rfl⟩ | ⟨v, u', hv, hd, rfl⟩
    · cases hu
    · cases hu
      obtain ⟨s, hs, hp⟩ := (deserializePj_none env).1 hd
      refine ⟨⟨v, hv, s, hs, parseEndpoint_ok.1 hp⟩, hsec, ?_⟩
      rcases hpjos with ⟨h, rfl⟩ | ⟨o, os', ho, hd', rfl⟩
      · exact .inl ⟨h, rfl⟩
      · exact .inr ⟨o, ho, (deserializePjos_none).1 hd'⟩
  · rintro ⟨⟨v, hv, s, hs, hp⟩, hsec, hos⟩
    have hpj : deserializePj env none v = .ok u :=
      (deserializePj_none env).2 ⟨s, hs, parseEndpoint_ok.2 hp⟩
    rcases hos with ⟨h, rfl⟩ | ⟨o, ho, hos⟩
    · exact ⟨some u, none, .inr ⟨v, u, hv, hpj, rfl⟩, .inl ⟨h, rfl⟩, rfl, hsec, rfl⟩
    · exact ⟨some u, some os, .inr ⟨v, u, hv, hpj, rfl⟩,
        .inr ⟨o, os, ho, (deserializePjos_none).2 hos, rfl⟩, rfl, hsec, rfl⟩

theorem deserialize_unsupported :
    deserialize env ps = .ok .unsupported ↔ pjValues ps = [] ∧ pjosValues ps = [] := by
  rw [deserialize_eq_ok]
  simp only [finalize_unsupported, runField_eq_some (deserializePj_dup env),
    runField_eq_some deserializePjos_dup]
  constructor
  · rintro ⟨pj, pjos, hpj, hpjos, rfl, rfl⟩
    rcases hpj with ⟨h, -⟩ | ⟨_, _, _, _, h⟩
    · rcases hpjos with ⟨h', -⟩ | ⟨_, _, _, _, h'⟩
      · exact ⟨h, h'⟩
      · cases h'
    · cases h
  · rintro ⟨h, h'⟩
    exact ⟨none, none, .inl ⟨h, rfl⟩, .inl ⟨h', rfl⟩, rfl, rfl⟩

/-- Parameters with other keys do not change the run. -/
theorem deserializeParams_filter (st : DeserializationState) :
    deserializeParams env st (ps.filter fun p => isParamKnown p.1) =
      deserializeParams env st ps := by
  induction ps generalizing st with
  | nil => rfl
  | cons p ps ih =>
    obtain ⟨key, value⟩ := p
    by_cases hk : isParamKnown key
    · simp only [List.filter_cons, hk, ↓reduceIte, deserializeParams]
      cases deserializeTemp env st key value with
      | error e => rfl
      | ok r => exact ih _
    · simp only [List.filter_cons, hk, Bool.false_eq_true, ↓reduceIte, deserializeParams,
        deserializeTemp_unknown env st (Bool.eq_false_iff.2 hk)]
      exact ih st

theorem toOption_deserialize_perm {ps' : List (String × Param)} (h : ps'.Perm ps) :
    (deserialize env ps').toOption = (deserialize env ps).toOption := by
  have h1 : (pjValues ps').Perm (pjValues ps) := (h.filter _).map _
  have h2 : (pjosValues ps').Perm (pjosValues ps) := (h.filter _).map _
  rw [toOption_deserialize, toOption_deserialize, toOption_deserializeParams,
    toOption_deserializeParams]
  dsimp only
  rw [runField_perm (deserializePj_dup env) h1, runField_perm deserializePjos_dup h2]

/-- **The `pj` and `pjos` parameters**: the result is `Supported` exactly when there is one
`pj`, UTF-8, parsing (with a lower-case-free fragment under `v2`) to a secure endpoint,
and at most one `pjos`, `0` or `1`; it is `Unsupported` exactly when there is neither;
other keys do not matter, and neither does the order. -/
theorem deserialize_iff :
    (∀ u os, deserialize env ps = .ok (.supported ⟨u, os⟩) ↔
      (∃ v, pjValues ps = [v] ∧ ∃ s, v.toStr = some s ∧ env.parse s = .ok u ∧
        (env.v2 = true → LowercaseFree env.lowercase u)) ∧
      secureEndpoint u ∧
      (pjosValues ps = [] ∧ os = .enabled ∨
        ∃ o, pjosValues ps = [o] ∧
          (o.toStr = some "0" ∧ os = .disabled ∨ o.toStr = some "1" ∧ os = .enabled))) ∧
    (deserialize env ps = .ok .unsupported ↔ pjValues ps = [] ∧ pjosValues ps = []) ∧
    deserialize env (ps.filter fun p => isParamKnown p.1) = deserialize env ps ∧
    ∀ ps', ps'.Perm ps → (deserialize env ps').toOption = (deserialize env ps).toOption := by
  refine ⟨deserialize_supported env ps, deserialize_unsupported env ps, ?_,
    fun _ h => toOption_deserialize_perm env ps h⟩
  unfold deserialize
  rw [deserializeParams_filter]

end Whole

end PayjoinUri.Deserialize
