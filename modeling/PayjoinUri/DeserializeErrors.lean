import PayjoinUri.Deserialize

/-! The errors of a run of `deserialize_temp` and of `finalize`. A run refuses at its first
failing parameter, after a prefix that succeeds (`deserializeParams_eq_error`); each arm of
`deserialize_temp` fails only for the reason its error names, and a state reached from the
default holds a field exactly when a value of it came before. So every error the parse
reports names a defect of the parameter list (`deserialize_error_sound`), and the two errors
of `finalize`, which no step raises, occur exactly for the lists that cause them
(`finalize_errors_iff`). -/

namespace PayjoinUri.DeserializeErrors

open UrlCrate UrlParse Deserialize

variable (env : Env)

/-! ## The fold -/

theorem deserializeParams_append (st : DeserializationState) (pre rest : List (String × Param)) :
    deserializeParams env st (pre ++ rest) =
      deserializeParams env st pre >>= fun st₁ => deserializeParams env st₁ rest := by
  induction pre generalizing st with
  | nil => rfl
  | cons p pre ih =>
    obtain ⟨key, value⟩ := p
    simp only [List.cons_append, deserializeParams]
    cases deserializeTemp env st key value with
    | error e => rfl
    | ok r => exact ih r.2

/-- **A run refuses at its first failing parameter**, after a prefix that succeeds; the
parameters after it are not read. -/
theorem deserializeParams_eq_error {st : DeserializationState} {ps : List (String × Param)}
    {e : PjParseError} :
    deserializeParams env st ps = .error e ↔
      ∃ pre key value post st₁, ps = pre ++ (key, value) :: post ∧
        deserializeParams env st pre = .ok st₁ ∧ deserializeTemp env st₁ key value = .error e := by
  constructor
  · intro h
    induction ps generalizing st with
    | nil => cases h
    | cons p ps ih =>
      obtain ⟨key, value⟩ := p
      rw [deserializeParams] at h
      split at h
      · next _ st₁ hs =>
        obtain ⟨pre, k, v, post, s, rfl, hpre, hk⟩ := ih h
        refine ⟨(key, value) :: pre, k, v, post, s, rfl, ?_, hk⟩
        rw [deserializeParams, hs]
        exact hpre
      · next e' hs =>
        cases h
        exact ⟨[], key, value, ps, st, rfl, rfl, hs⟩
  · rintro ⟨pre, key, value, post, st₁, rfl, hpre, hstep⟩
    rw [deserializeParams_append, hpre]
    show deserializeParams env st₁ ((key, value) :: post) = _
    rw [deserializeParams, hstep]

/-- A run from the default state, read through the runs of its two fields. -/
theorem deserializeParams_eq_ok {ps : List (String × Param)} {st : DeserializationState} :
    deserializeParams env {} ps = .ok st ↔
      runField (deserializePj env) none (pjValues ps) = some st.pj ∧
        runField deserializePjos none (pjosValues ps) = some st.pjos := by
  rw [← toOption_eq_some, toOption_deserializeParams]
  obtain ⟨pj, pjos⟩ := st
  simp only [Option.bind_eq_some, Option.map_eq_some']
  constructor
  · rintro ⟨a, ha, b, hb, he⟩
    cases he
    exact ⟨ha, hb⟩
  · rintro ⟨ha, hb⟩
    exact ⟨_, ha, _, hb, rfl⟩

/-- A state reached from the default holds a field exactly when a value of it came before. -/
theorem deserializeParams_fields {pre : List (String × Param)} {st : DeserializationState}
    (h : deserializeParams env {} pre = .ok st) :
    (st.pj = none ↔ pjValues pre = []) ∧ (st.pjos = none ↔ pjosValues pre = []) := by
  obtain ⟨hpj, hpjos⟩ := (deserializeParams_eq_ok env).1 h
  refine ⟨?_, ?_⟩
  · rcases (runField_eq_some (deserializePj_dup env)).1 hpj with
      ⟨hv, ha⟩ | ⟨v, b, hv, -, ha⟩
    · exact iff_of_true ha hv
    · rw [ha, hv]
      exact iff_of_false nofun nofun
  · rcases (runField_eq_some deserializePjos_dup).1 hpjos with ⟨hv, ha⟩ | ⟨v, b, hv, -, ha⟩
    · exact iff_of_true ha hv
    · rw [ha, hv]
      exact iff_of_false nofun nofun

theorem pjValues_append_cons (pre post : List (String × Param)) (key : String) (value : Param) :
    pjValues (pre ++ (key, value) :: post) =
      pjValues pre ++ (if key = "pj" then [value] else []) ++ pjValues post := by
  by_cases hk : key = "pj" <;> simp [pjValues, List.filter_cons, hk]

theorem pjosValues_append_cons (pre post : List (String × Param)) (key : String)
    (value : Param) :
    pjosValues (pre ++ (key, value) :: post) =
      pjosValues pre ++ (if key = "pjos" then [value] else []) ++ pjosValues post := by
  by_cases hk : key = "pjos" <;> simp [pjosValues, List.filter_cons, hk]

/-! ## Why a step fails -/

theorem parseEndpoint_error {s : String} {e : InternalPjParseError}
    (h : parseEndpoint env s = .error e) : ∃ b, e = .badEndpoint b := by
  unfold parseEndpoint at h
  split at h
  · cases hp : parseWithFragment env.parse env.lowercase s <;>
      simp only [hp, Except.mapError, Except.error.injEq, reduceCtorEq] at h
    exact ⟨_, h.symm⟩
  · cases hp : env.parse s <;>
      simp only [hp, Except.mapError, Except.error.injEq, reduceCtorEq] at h
    exact ⟨_, h.symm⟩

theorem deserializePj_error {pj : Option Url} {value : Param} {e : InternalPjParseError}
    (h : deserializePj env pj value = .error e) :
    pj.isSome ∧ e = .duplicateParams "pj" ∨
      pj = none ∧ (value.toStr = none ∧ e = .notUtf8 ∨
        ∃ s, value.toStr = some s ∧ parseEndpoint env s = .error e) := by
  cases pj with
  | some u => exact .inl ⟨rfl, (Except.error.inj h).symm⟩
  | none =>
    refine .inr ⟨rfl, ?_⟩
    unfold deserializePj at h
    cases hv : value.toStr with
    | none =>
      rw [hv] at h
      exact .inl ⟨rfl, (Except.error.inj h).symm⟩
    | some s =>
      rw [hv] at h
      exact .inr ⟨s, rfl, h⟩

theorem deserializePjos_error {pjos : Option OutputSubstitution} {value : Param}
    {e : InternalPjParseError} (h : deserializePjos pjos value = .error e) :
    pjos.isSome ∧ e = .duplicateParams "pjos" ∨
      pjos = none ∧ e = .badPjOs ∧ value.toStr ≠ some "0" ∧ value.toStr ≠ some "1" := by
  cases pjos with
  | some os => exact .inl ⟨rfl, (Except.error.inj h).symm⟩
  | none =>
    refine .inr ⟨rfl, ?_⟩
    unfold deserializePjos at h
    cases hv : value.toStr with
    | none =>
      rw [hv] at h
      exact ⟨(Except.error.inj h).symm, nofun, nofun⟩
    | some s =>
      rw [hv] at h
      simp only [bind, Except.bind, pure, Except.pure] at h
      split at h
      · cases h
      · cases h
      · next h0 h1 => exact ⟨(Except.error.inj h).symm, by simpa using h0, by simpa using h1⟩

theorem mapError_map_eq_error {ε ε' α β : Type} {x : Except ε α} {f : α → β}
    {g : ε → ε'} {e : ε'} (h : (x.map f).mapError g = .error e) : ∃ e', x = .error e' ∧ g e' = e := by
  cases x with
  | error e' => exact ⟨e', rfl, Except.error.inj h⟩
  | ok a => cases h

/-- What one failing call of `deserialize_temp` can be. -/
theorem deserializeTemp_error {st : DeserializationState} {key : String} {value : Param}
    {e : PjParseError} (h : deserializeTemp env st key value = .error e) :
    key = "pj" ∧ deserializePj env st.pj value = .error e.internal ∨
      key = "pjos" ∧ deserializePjos st.pjos value = .error e.internal := by
  by_cases hpj : key = "pj"
  · subst hpj
    obtain ⟨e', he', rfl⟩ :=
      mapError_map_eq_error ((deserializeTemp_pj env st value).symm.trans h)
    exact .inl ⟨rfl, he'⟩
  by_cases hpjos : key = "pjos"
  · subst hpjos
    obtain ⟨e', he', rfl⟩ :=
      mapError_map_eq_error ((deserializeTemp_pjos env st value).symm.trans h)
    exact .inr ⟨rfl, he'⟩
  have hk : isParamKnown key = false := by simp [isParamKnown, hpj, hpjos]
  rw [deserializeTemp_unknown env st hk] at h
  cases h

/-- No step raises the errors of `finalize`. -/
theorem deserializeTemp_error_ne {st : DeserializationState} {key : String} {value : Param}
    {e : PjParseError} (h : deserializeTemp env st key value = .error e) :
    e.internal ≠ .missingEndpoint ∧ e.internal ≠ .unsecureEndpoint := by
  rcases deserializeTemp_error env h with ⟨-, h⟩ | ⟨-, h⟩
  · rcases deserializePj_error env h with ⟨-, he⟩ | ⟨-, ⟨-, he⟩ | ⟨s, -, hp⟩⟩
    · rw [he]; exact ⟨nofun, nofun⟩
    · rw [he]; exact ⟨nofun, nofun⟩
    · obtain ⟨b, hb⟩ := parseEndpoint_error env hp
      rw [hb]; exact ⟨nofun, nofun⟩
  · rcases deserializePjos_error h with ⟨-, he⟩ | ⟨-, he, -⟩
    · rw [he]; exact ⟨nofun, nofun⟩
    · rw [he]; exact ⟨nofun, nofun⟩

theorem finalize_error {st : DeserializationState} {e : PjParseError}
    (h : finalize st = .error e) :
    st.pj = none ∧ st.pjos.isSome ∧ e = ⟨.missingEndpoint⟩ ∨
      (∃ u, st.pj = some u ∧ ¬secureEndpoint u) ∧ e = ⟨.unsecureEndpoint⟩ := by
  obtain ⟨pj, pjos⟩ := st
  cases pj with
  | none =>
    cases pjos with
    | none => cases h
    | some os => exact .inl ⟨rfl, rfl, (Except.error.inj h).symm⟩
  | some u =>
    by_cases hu : secureEndpoint u
    · simp [finalize, hu] at h
    · simp only [finalize, hu, ↓reduceIte, Except.error.injEq] at h
      exact .inr ⟨⟨u, rfl, hu⟩, h.symm⟩

/-! ## What each error says -/

/-- What each error of the parse says of the parameter list. -/
def ErrorCause (ps : List (String × Param)) : InternalPjParseError → Prop
  | .duplicateParams k =>
    k = "pj" ∧ 2 ≤ (pjValues ps).length ∨ k = "pjos" ∧ 2 ≤ (pjosValues ps).length
  | .notUtf8 => ∃ v ∈ pjValues ps, v.toStr = none
  | .badEndpoint b =>
    ∃ v ∈ pjValues ps, ∃ s, v.toStr = some s ∧ parseEndpoint env s = .error (.badEndpoint b)
  | .badPjOs => ∃ o ∈ pjosValues ps, o.toStr ≠ some "0" ∧ o.toStr ≠ some "1"
  | .missingEndpoint => pjValues ps = [] ∧ pjosValues ps ≠ []
  | .unsecureEndpoint =>
    ∃ v, pjValues ps = [v] ∧
      ∃ s u, v.toStr = some s ∧ parseEndpoint env s = .ok u ∧ ¬secureEndpoint u

/-- A value after a non-empty prefix is at least the second. -/
theorem two_le_length {pre : List Param} (hpre : pre ≠ []) (v : Param) (post : List Param) :
    2 ≤ (pre ++ [v] ++ post).length := by
  have := List.length_pos.2 hpre
  simp only [List.length_append, List.length_singleton]
  omega

/-- The error of a failing step names a defect of the whole list it sits in. -/
theorem errorCause_of_step {pre post : List (String × Param)} {key : String} {value : Param}
    {st : DeserializationState} (hpre : deserializeParams env {} pre = .ok st) {e : PjParseError}
    (h : deserializeTemp env st key value = .error e) :
    ErrorCause env (pre ++ (key, value) :: post) e.internal := by
  have hfields := deserializeParams_fields env hpre
  rcases deserializeTemp_error env h with ⟨rfl, hpj⟩ | ⟨rfl, hpjos⟩
  · rcases deserializePj_error env hpj with ⟨hs, he⟩ | ⟨-, ⟨hv, he⟩ | ⟨s, hv, hp⟩⟩
    · rw [he]
      refine .inl ⟨rfl, ?_⟩
      rw [pjValues_append_cons, if_pos rfl]
      exact two_le_length (fun hnil => by simp [hfields.1.2 hnil] at hs) value _
    · rw [he]
      exact ⟨value, by simp [pjValues_append_cons], hv⟩
    · obtain ⟨b, hb⟩ := parseEndpoint_error env hp
      rw [hb] at hp ⊢
      exact ⟨value, by simp [pjValues_append_cons], s, hv, hp⟩
  · rcases deserializePjos_error hpjos with ⟨hs, he⟩ | ⟨-, he, h0, h1⟩
    · rw [he]
      refine .inr ⟨rfl, ?_⟩
      rw [pjosValues_append_cons, if_pos rfl]
      exact two_le_length (fun hnil => by simp [hfields.2.2 hnil] at hs) value _
    · rw [he]
      exact ⟨value, by simp [pjosValues_append_cons], h0, h1⟩

/-- **Every error the parse of the parameters reports names a defect of the list**: a
duplicate error a second value of its key, `NotUtf8` and `BadEndpoint` a `pj` value that is
not text or does not parse, `BadPjOs` a `pjos` value other than `0` and `1`,
`MissingEndpoint` a `pjos` without a `pj`, and `UnsecureEndpoint` a single `pj` that parses to
an endpoint neither `https` nor `http` to an onion host. -/
theorem deserialize_error_sound {ps : List (String × Param)} {ie : InternalPjParseError}
    (h : deserialize env ps = .error ⟨ie⟩) : ErrorCause env ps ie := by
  unfold deserialize at h
  cases hrun : deserializeParams env {} ps with
  | error e =>
    rw [hrun] at h
    cases h
    obtain ⟨pre, key, value, post, st, rfl, hpre, hstep⟩ :=
      (deserializeParams_eq_error env).1 hrun
    exact errorCause_of_step env hpre hstep
  | ok st =>
    rw [hrun] at h
    obtain ⟨hpj, hpjos⟩ := deserializeParams_fields env hrun
    rcases finalize_error h with ⟨h1, h2, he⟩ | ⟨⟨u, hu, hsec⟩, he⟩
    · cases he
      exact ⟨hpj.1 h1, fun hnil => by simp [hpjos.2 hnil] at h2⟩
    · cases he
      obtain ⟨hrpj, -⟩ := (deserializeParams_eq_ok env).1 hrun
      rcases (runField_eq_some (deserializePj_dup env)).1 hrpj with
        ⟨-, ha⟩ | ⟨v, b, hv, hb, ha⟩
      · rw [hu] at ha; cases ha
      · rw [hu, Option.some.injEq] at ha
        subst ha
        obtain ⟨s, hs, hp⟩ := (deserializePj_none env).1 hb
        exact ⟨v, hv, s, u, hs, hp, hsec⟩

theorem deserialize_error_sound_duplicate :
    deserialize ⟨parsePlain, fun _ => false, true⟩
        [("pjos", .str "1"), ("pj", .str "https://example/"), ("pjos", .str "0")] =
      .error ⟨.duplicateParams "pjos"⟩ ∧
    ErrorCause ⟨parsePlain, fun _ => false, true⟩
      [("pjos", .str "1"), ("pj", .str "https://example/"), ("pjos", .str "0")]
      (.duplicateParams "pjos") :=
  ⟨rfl, deserialize_error_sound ⟨parsePlain, fun _ => false, true⟩ rfl⟩

/-! ## The errors of `finalize` -/

/-- A parse fails with an error of `finalize` exactly when the run succeeds and `finalize`
refuses the state it reaches. -/
theorem deserialize_eq_finalize_error {ps : List (String × Param)} {ie : InternalPjParseError}
    (hie : ie = .missingEndpoint ∨ ie = .unsecureEndpoint) :
    deserialize env ps = .error ⟨ie⟩ ↔
      ∃ st, deserializeParams env {} ps = .ok st ∧ finalize st = .error ⟨ie⟩ := by
  unfold deserialize
  cases hrun : deserializeParams env {} ps with
  | error e =>
    obtain ⟨_, _, _, _, _, -, -, hstep⟩ := (deserializeParams_eq_error env).1 hrun
    have hne := deserializeTemp_error_ne env hstep
    refine ⟨fun h => ?_, fun ⟨_, h, _⟩ => nomatch h⟩
    cases h
    rcases hie with rfl | rfl
    · exact absurd rfl hne.1
    · exact absurd rfl hne.2
  | ok st => exact ⟨fun h => ⟨st, rfl, h⟩, fun ⟨_, h, hf⟩ => by cases h; exact hf⟩

/-- The `pjos` run returns exactly when there is at most one `pjos`, `0` or `1`. -/
theorem runField_pjos_isSome {vs : List Param} :
    (∃ a, runField deserializePjos none vs = some a) ↔
      vs = [] ∨ ∃ o, vs = [o] ∧ (o.toStr = some "0" ∨ o.toStr = some "1") := by
  simp only [runField_eq_some deserializePjos_dup, deserializePjos_none]
  constructor
  · rintro ⟨a, ⟨hv, -⟩ | ⟨o, b, hv, hb, -⟩⟩
    · exact .inl hv
    · exact .inr ⟨o, hv, hb.imp And.left And.left⟩
  · rintro (hv | ⟨o, hv, h0 | h1⟩)
    · exact ⟨none, .inl ⟨hv, rfl⟩⟩
    · exact ⟨_, .inr ⟨o, .disabled, hv, .inl ⟨h0, rfl⟩, rfl⟩⟩
    · exact ⟨_, .inr ⟨o, .enabled, hv, .inr ⟨h1, rfl⟩, rfl⟩⟩

/-- **The two errors of `finalize` occur exactly for the lists that cause them**, in any
order of the parameters: `MissingEndpoint` for no `pj` and one `pjos`, `0` or `1`, and
`UnsecureEndpoint` for one `pj` parsing to an endpoint neither `https` nor `http` to an
onion host, with at most one `pjos`, `0` or `1`. -/
theorem finalize_errors_iff (ps : List (String × Param)) :
    (deserialize env ps = .error ⟨.missingEndpoint⟩ ↔
      pjValues ps = [] ∧ ∃ o, pjosValues ps = [o] ∧ (o.toStr = some "0" ∨ o.toStr = some "1")) ∧
    (deserialize env ps = .error ⟨.unsecureEndpoint⟩ ↔
      (∃ v, pjValues ps = [v] ∧
        ∃ s u, v.toStr = some s ∧ parseEndpoint env s = .ok u ∧ ¬secureEndpoint u) ∧
      (pjosValues ps = [] ∨ ∃ o, pjosValues ps = [o] ∧ (o.toStr = some "0" ∨ o.toStr = some "1"))) := by
  rw [deserialize_eq_finalize_error env (.inl rfl), deserialize_eq_finalize_error env (.inr rfl)]
  simp only [deserializeParams_eq_ok, runField_eq_some (deserializePj_dup env)]
  refine ⟨⟨?_, ?_⟩, ⟨?_, ?_⟩⟩
  · rintro ⟨⟨pj, pjos⟩, ⟨hpj, hpjos⟩, hfin⟩
    rcases finalize_error hfin with ⟨rfl, hs, -⟩ | ⟨-, he⟩
    · obtain ⟨os, rfl⟩ := Option.isSome_iff_exists.1 hs
      rcases hpj with ⟨hv, -⟩ | ⟨_, _, _, _, h⟩
      · rcases runField_pjos_isSome.1 ⟨_, hpjos⟩ with hv' | ho
        · rw [hv'] at hpjos
          cases hpjos
        · exact ⟨hv, ho⟩
      · cases h
    · cases he
  · rintro ⟨hv, o, ho, hos⟩
    obtain ⟨a, ha⟩ := runField_pjos_isSome.2 (.inr ⟨o, ho, hos⟩)
    rcases (runField_eq_some deserializePjos_dup).1 ha with ⟨h, -⟩ | ⟨_, os, -, -, rfl⟩
    · rw [ho] at h
      cases h
    · exact ⟨⟨none, some os⟩, ⟨.inl ⟨hv, rfl⟩, ha⟩, rfl⟩
  · rintro ⟨⟨pj, pjos⟩, ⟨hpj, hpjos⟩, hfin⟩
    rcases finalize_error hfin with ⟨-, -, he⟩ | ⟨⟨u, rfl, hsec⟩, -⟩
    · cases he
    rcases hpj with ⟨-, h⟩ | ⟨v, u', hv, hd, h⟩
    · cases h
    cases h
    obtain ⟨s, hs, hp⟩ := (deserializePj_none env).1 hd
    exact ⟨⟨v, hv, s, u, hs, hp, hsec⟩, runField_pjos_isSome.1 ⟨_, hpjos⟩⟩
  · rintro ⟨⟨v, hv, s, u, hs, hp, hsec⟩, hos⟩
    obtain ⟨a, ha⟩ := runField_pjos_isSome.2 hos
    have hd := (deserializePj_none env).2 ⟨s, hs, hp⟩
    refine ⟨⟨some u, a⟩, ⟨.inr ⟨v, u, hv, hd, rfl⟩, ha⟩, ?_⟩
    simp [finalize, hsec]

/-! ## The `v2` feature -/

/-- **The `v2` feature only adds the lower-case check on the endpoint's fragment.** With the
same `Url::parse`, the parse of the parameters built with `v2` returns a value exactly when
the one built without it returns that value and the value's endpoint, if any, has no
lower-case character in its fragment. -/
theorem deserialize_v2_ok (parse : String → Except ParseError Url) (lowercase : Char → Bool)
    (ps : List (String × Param)) (x : MaybePayjoinExtras) :
    deserialize ⟨parse, lowercase, true⟩ ps = .ok x ↔
      deserialize ⟨parse, lowercase, false⟩ ps = .ok x ∧
        ∀ e, x = .supported e → LowercaseFree lowercase e.endpoint := by
  cases x with
  | unsupported =>
    rw [deserialize_unsupported, deserialize_unsupported]
    simp
  | supported e =>
    obtain ⟨u, os⟩ := e
    rw [deserialize_supported _ ps u os, deserialize_supported _ ps u os]
    simp only [true_implies, Bool.false_eq_true, false_implies, and_true,
      MaybePayjoinExtras.supported.injEq, forall_eq']
    constructor
    · rintro ⟨⟨v, hv, s, hs, hp, hl⟩, hsec, hos⟩
      exact ⟨⟨⟨v, hv, s, hs, hp⟩, hsec, hos⟩, hl⟩
    · rintro ⟨⟨⟨v, hv, s, hs, hp⟩, hsec, hos⟩, hl⟩
      exact ⟨⟨v, hv, s, hs, hp, hl⟩, hsec, hos⟩

end PayjoinUri.DeserializeErrors
