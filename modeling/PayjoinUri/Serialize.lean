import PayjoinUri.Deserialize

/-! `serialize_params`: the `pj` and `pjos` parameters written back, with the scheme and
the host of the endpoint upper-cased by `replacen(.., 1)`. The second `replacen`
upper-cases the first occurrence of the host's text, which is the host itself only when
the text does not occur earlier (`HostFirst`); then parsing the parameters gives the
value back (`serialize_deserialize`). When the username holds the host's text, the
username is upper-cased instead and the parse returns a different endpoint
(`serialize_roundtrip_breaks`). -/

namespace PayjoinUri.Serialize

open Text UrlCrate UrlParse Deserialize

/-- `SerializeParams for &PayjoinExtras`, `None` where `expect("host must be set")`
panics. -/
def serializeExtras (extras : PayjoinExtras) : Option (List (String × String)) := do
  let scheme := extras.endpoint.scheme
  let host ← extras.endpoint.hostStr
  let endpointStr :=
    replacen (replacen extras.endpoint.asStr scheme (toUppercase scheme)) host (toUppercase host)
  let params := if extras.outputSubstitution = .disabled then [("pjos", "0")] else []
  pure (params ++ [("pj", endpointStr)])

/-- `SerializeParams for &MaybePayjoinExtras`. -/
def serializeParams : MaybePayjoinExtras → Option (List (String × String))
  | .supported extras => serializeExtras extras
  | .unsupported => some []

/-- Serialized pairs as the parser receives them, as text. -/
def asParams (ps : List (String × String)) : List (String × Param) :=
  ps.map fun p => (p.1, .str p.2)

/-- **`serialize_params` changes only the case of letters**: it panics exactly when the
endpoint has no host; otherwise it writes `pjos=0` when output substitution is disabled,
then a `pj` text equal to `as_str` of the endpoint once both are lower-cased, wherever the
host's text first occurs. -/
theorem serializeExtras_case_only (extras : PayjoinExtras) :
    (serializeExtras extras = none ↔ extras.endpoint.hostStr = none) ∧
    ∀ ps, serializeExtras extras = some ps →
      ∃ s, ps = (if extras.outputSubstitution = .disabled then [("pjos", "0")] else []) ++
          [("pj", s)] ∧
        toLowercase s = toLowercase extras.endpoint.asStr := by
  unfold serializeExtras
  cases extras.endpoint.hostStr with
  | none => exact ⟨iff_of_true rfl rfl, fun _ h => nomatch h⟩
  | some host =>
    refine ⟨iff_of_false nofun nofun, fun ps h => ⟨_, (Option.some.inj h).symm, ?_⟩⟩
    rw [toLowercase_replacen_toUppercase, toLowercase_replacen_toUppercase]

/-! ## Where the host is upper-cased -/

/-- What the serializer writes before the host once the scheme is upper case. -/
def hostPrefix (u : Url) : List Char := (toUppercase u.scheme ++ ":" ++ "//" ++ u.userinfo).toList

/-- What the serializer writes after the host. -/
def hostSuffix (u : Url) : List Char :=
  ((u.port.map fun p => ":" ++ toString p.toNat).getD "" ++ u.path ++
    (u.query.map ("?" ++ ·)).getD "" ++ (u.fragment.map ("#" ++ ·)).getD "").toList

/-- The host's text `h` does not occur in the serialization before the host. -/
def HostFirst (u : Url) (h : String) : Prop :=
  ∀ i < (hostPrefix u).length,
    h.toList.isPrefixOf ((hostPrefix u ++ h.toList ++ hostSuffix u).drop i) = false

instance (u : Url) (h : String) : Decidable (HostFirst u h) :=
  inferInstanceAs (Decidable (∀ i < _, _))

theorem asStr_toList_of_host (u : Url) (h : Host) (hh : u.host = some h) :
    u.asStr.toList = u.scheme.toList ++
      ((":" ++ "//" ++ u.userinfo).toList ++ h.text.toList ++ hostSuffix u) := by
  simp [Url.asStr, Url.authority, hh, hostSuffix, String.toList, String.data_append]

/-- **The endpoint text `serialize_params` writes**: scheme and host in upper case, when
the host's text first occurs at the host. -/
theorem replacen_scheme_host (u : Url) (h : Host) (hh : u.host = some h)
    (hfirst : HostFirst u h.text) :
    replacen (replacen u.asStr u.scheme (toUppercase u.scheme)) h.text (toUppercase h.text) =
      u.upcaseSchemeHost.asStr := by
  have hscheme : replacen u.asStr u.scheme (toUppercase u.scheme) =
      ⟨hostPrefix u ++ h.text.toList ++ hostSuffix u⟩ := by
    rw [replacen, asStr_toList_of_host u h hh, replaceFirst_prefix]
    simp only [hostPrefix, String.toList, String.data_append, List.append_assoc]
  have hup : u.upcaseSchemeHost.host = some (h.mapText toUppercase) := by
    simp [Url.upcaseSchemeHost, Url.mapSchemeHost, hh]
  rw [hscheme, replacen]
  apply String.ext
  show replaceFirst h.text.toList (toUppercase h.text).toList
    (hostPrefix u ++ h.text.toList ++ hostSuffix u) = u.upcaseSchemeHost.asStr.toList
  rw [replaceFirst_append _ _ _ _ hfirst, asStr_toList_of_host _ _ hup]
  simp [hostPrefix, hostSuffix, Url.upcaseSchemeHost, Url.mapSchemeHost, Url.userinfo,
    String.toList, String.data_append]

/-! ## Serializing, then parsing -/

section Roundtrip

variable (env : Env) (hp : UrlParseSpec env.parse)
include hp

/-- Parsing what `serialize_params` writes for a supported value gives it back. -/
theorem deserialize_serializeParams_supported {s : String} {u : Url}
    (hs : parseEndpoint env s = .ok u) (hsec : secureEndpoint u)
    (hfirst : ∀ h, u.hostStr = some h → HostFirst u h) (os : OutputSubstitution) :
    (serializeParams (.supported ⟨u, os⟩)).map (deserialize env ∘ asParams) =
      some (.ok (.supported ⟨u, os⟩)) := by
  obtain ⟨hparse, hfree⟩ := parseEndpoint_ok.1 hs
  have hspecial : u.scheme = "https" ∨ u.scheme = "http" := hsec.imp id And.left
  obtain ⟨h, hh⟩ := Option.isSome_iff_exists.1 (hp.special_host s u hparse hspecial)
  have hstr : replacen (replacen u.asStr u.scheme (toUppercase u.scheme)) h.text
      (toUppercase h.text) = u.upcaseSchemeHost.asStr :=
    replacen_scheme_host u h hh (hfirst h.text (by simp [Url.hostStr, hh]))
  have hreparse := hp.upcase_reparse s u hparse hspecial
  have hser : serializeParams (.supported ⟨u, os⟩) = some
      ((if os = .disabled then [("pjos", "0")] else []) ++ [("pj", u.upcaseSchemeHost.asStr)]) := by
    simp [serializeParams, serializeExtras, Url.hostStr, hh, hstr]
  rw [hser, Option.map_some']
  congr 1
  cases os
  · exact (deserialize_supported env _ u _).2
      ⟨⟨_, rfl, _, rfl, hreparse, hfree⟩, hsec, .inl ⟨rfl, rfl⟩⟩
  · exact (deserialize_supported env _ u _).2
      ⟨⟨_, rfl, _, rfl, hreparse, hfree⟩, hsec, .inr ⟨.str "0", rfl, .inl ⟨rfl, rfl⟩⟩⟩

/-- **Parsing what `serialize_params` writes gives the value back**, for every value
`finalize` returns whose host's text first occurs at the host. -/
theorem serialize_deserialize {s : String} {u : Url} (hs : parseEndpoint env s = .ok u)
    (hsec : secureEndpoint u) (hfirst : ∀ h, u.hostStr = some h → HostFirst u h)
    (os : OutputSubstitution) :
    (serializeParams (.supported ⟨u, os⟩)).map (deserialize env ∘ asParams) =
      some (.ok (.supported ⟨u, os⟩)) ∧
    (serializeParams .unsupported).map (deserialize env ∘ asParams) = some (.ok .unsupported) :=
  ⟨deserialize_serializeParams_supported env hp hs hsec hfirst os, rfl⟩

end Roundtrip

/-- `https://example/`, as `Url::parse` returns it. -/
def exampleEndpoint : Url := ⟨"https", "", none, some (.domain "example"), none, "/", none, none⟩

theorem plain_exampleEndpoint : Plain exampleEndpoint :=
  ⟨by decide, by decide, by decide, rfl, ⟨"example", rfl, by decide, by decide⟩, rfl, rfl, rfl,
    nofun⟩

theorem serialize_deserialize_example :
    parseEndpoint ⟨parsePlain, fun _ => false, true⟩ "https://example/" = .ok exampleEndpoint ∧
    secureEndpoint exampleEndpoint ∧
    (∀ h, exampleEndpoint.hostStr = some h → HostFirst exampleEndpoint h) ∧
    ((serializeParams (.supported ⟨exampleEndpoint, .disabled⟩)).map
        (deserialize ⟨parsePlain, fun _ => false, true⟩ ∘ asParams) =
      some (.ok (.supported ⟨exampleEndpoint, .disabled⟩)) ∧
    (serializeParams .unsupported).map (deserialize ⟨parsePlain, fun _ => false, true⟩ ∘ asParams) =
      some (.ok .unsupported)) := by
  have hs : parseEndpoint ⟨parsePlain, fun _ => false, true⟩ "https://example/" =
      .ok exampleEndpoint := rfl
  have hsec : secureEndpoint exampleEndpoint := by decide
  have hfirst : ∀ h, exampleEndpoint.hostStr = some h → HostFirst exampleEndpoint h := by
    rintro h ⟨⟩
    decide
  exact ⟨hs, hsec, hfirst, serialize_deserialize ⟨parsePlain, fun _ => false, true⟩ parsePlain_spec
    hs hsec hfirst .disabled⟩

/-! ## A username that holds the host's text -/

/-- `https://example@example/`, as `Url::parse` returns it: the username is the host's
text. -/
def userHostEndpoint : Url :=
  ⟨"https", "example", none, some (.domain "example"), none, "/", none, none⟩

theorem plain_userHost : Plain userHostEndpoint :=
  ⟨by decide, by decide, by decide, rfl, ⟨"example", rfl, by decide, by decide⟩, rfl, rfl, rfl,
    nofun⟩

/-- The text `serialize_params` writes for it, with scheme and username upper-cased. -/
def userHostUpcased : Url :=
  ⟨"HTTPS", "EXAMPLE", none, some (.domain "example"), none, "/", none, none⟩

theorem plain_userHostUpcased : Plain userHostUpcased :=
  ⟨by decide, by decide, by decide, rfl, ⟨"example", rfl, by decide, by decide⟩, rfl, rfl, rfl,
    nofun⟩

/-- **Serializing, then parsing, changes the endpoint** `https://example@example/`: the
second `replacen` upper-cases the username, and `Url::parse` keeps the username's case. -/
theorem serialize_roundtrip_breaks (env : Env) (hp : UrlParseSpec env.parse) :
    deserialize env [("pj", .str "https://example@example/")] =
      .ok (.supported ⟨userHostEndpoint, .enabled⟩) ∧
    serializeParams (.supported ⟨userHostEndpoint, .enabled⟩) =
      some [("pj", "HTTPS://EXAMPLE@example/")] ∧
    deserialize env [("pj", .str "HTTPS://EXAMPLE@example/")] =
      .ok (.supported ⟨{ userHostEndpoint with username := "EXAMPLE" }, .enabled⟩) := by
  have hfree : ∀ w : Url, w.fragment = none → LowercaseFree env.lowercase w :=
    fun w hw f hf => by rw [hw] at hf; cases hf
  have h₁ : env.parse "https://example@example/" = .ok userHostEndpoint :=
    hp.plain _ plain_userHost
  have h₂ : env.parse "HTTPS://EXAMPLE@example/" =
      .ok { userHostEndpoint with username := "EXAMPLE" } :=
    hp.plain _ plain_userHostUpcased
  refine ⟨(deserialize_supported env _ _ _).2 ⟨⟨_, rfl, _, rfl, h₁, fun _ => hfree _ rfl⟩,
      .inl rfl, .inl ⟨rfl, rfl⟩⟩, rfl,
    (deserialize_supported env _ _ _).2 ⟨⟨_, rfl, _, rfl, h₂, fun _ => hfree _ rfl⟩,
      .inl rfl, .inl ⟨rfl, rfl⟩⟩⟩

theorem serialize_roundtrip_breaks_plain :
    UrlParseSpec parsePlain ∧
    deserialize ⟨parsePlain, fun _ => false, true⟩ [("pj", .str "https://example@example/")] =
      .ok (.supported ⟨userHostEndpoint, .enabled⟩) ∧
    serializeParams (.supported ⟨userHostEndpoint, .enabled⟩) =
      some [("pj", "HTTPS://EXAMPLE@example/")] ∧
    deserialize ⟨parsePlain, fun _ => false, true⟩ [("pj", .str "HTTPS://EXAMPLE@example/")] =
      .ok (.supported ⟨{ userHostEndpoint with username := "EXAMPLE" }, .enabled⟩) :=
  ⟨parsePlain_spec, serialize_roundtrip_breaks ⟨parsePlain, fun _ => false, true⟩ parsePlain_spec⟩

end PayjoinUri.Serialize
