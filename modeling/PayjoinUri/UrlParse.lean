import PayjoinUri.UrlCrate

/-! What the URI code assumes of `Url::parse`, which is not part of this crate.
`UrlParseSpec` states three facts of the URL Standard's parser: an `http(s)` URL has
a host, its text with scheme and host in upper case parses back to it, and a `Plain`
URL (letters, the path `/`, a simple fragment) parses to itself with scheme and host
in lower case; `FragmentReparse` adds that a parsed URL with a simple fragment in place of
its own parses back to itself. `parsePlain` parses exactly those plain URLs and meets both
contracts (`parsePlain_spec`, `parsePlain_fragmentReparse`), so they can be met and the
results stated under them can be run on examples. -/

namespace PayjoinUri.UrlParse

open Text UrlCrate

/-- The fragment characters of a plain URL: ASCII letters and digits, `-`, `+` and
`!`, none of which the parser percent-encodes. -/
def plainFragmentChar (c : Char) : Bool := c.isAlphanum || c == '-' || c == '+' || c == '!'

/-- The URLs whose parse the contract fixes: the scheme `http` or `https` in any case,
a username of letters and no password, a domain of letters, no port, the path `/`, no
query, and a fragment of `plainFragmentChar`s. -/
structure Plain (v : Url) : Prop where
  scheme_alpha : ∀ c ∈ v.scheme.toList, c.isAlpha
  scheme_special : toLowercase v.scheme = "https" ∨ toLowercase v.scheme = "http"
  username_alpha : ∀ c ∈ v.username.toList, c.isAlpha
  no_password : v.password = none
  domain : ∃ d, v.host = some (.domain d) ∧ d.toList ≠ [] ∧ ∀ c ∈ d.toList, c.isAlpha
  no_port : v.port = none
  root_path : v.path = "/"
  no_query : v.query = none
  fragment_plain : ∀ f, v.fragment = some f → ∀ c ∈ f.toList, plainFragmentChar c

/-- What the URI code assumes of `Url::parse`. -/
structure UrlParseSpec (parse : String → Except ParseError Url) : Prop where
  special_host : ∀ s u, parse s = .ok u → (u.scheme = "https" ∨ u.scheme = "http") →
    u.host.isSome
  upcase_reparse : ∀ s u, parse s = .ok u → (u.scheme = "https" ∨ u.scheme = "http") →
    parse u.upcaseSchemeHost.asStr = .ok u
  plain : ∀ v, Plain v → parse v.asStr = .ok v.lowerSchemeHost

/-- Username and domain of a plain authority, and the text after the domain. -/
def plainAuthority (cs : List Char) : List Char × List Char × List Char :=
  match cs.dropWhile Char.isAlpha with
  | '@' :: rest =>
    (cs.takeWhile Char.isAlpha, rest.takeWhile Char.isAlpha, rest.dropWhile Char.isAlpha)
  | rest => ([], cs.takeWhile Char.isAlpha, rest)

/-- The path `/` and an optional fragment. -/
def plainTail : List Char → Option (Option String)
  | ['/'] => some none
  | '/' :: '#' :: f => if f.all plainFragmentChar then some (some ⟨f⟩) else none
  | _ => none

/-- A plain URL after `scheme://`: the authority, the path `/` and the fragment. -/
def plainAfterScheme (scheme : String) (rest : List Char) : Except ParseError Url :=
  match plainAuthority rest with
  | (username, domain, tail) =>
    match plainTail tail with
    | some fragment =>
      if (scheme = "https" ∨ scheme = "http") ∧ domain ≠ [] then
        .ok ⟨scheme, ⟨username⟩, none, some (.domain (toLowercase ⟨domain⟩)), none, "/", none,
          fragment⟩
      else .error .emptyHost
    | none => .error .invalidDomainCharacter

/-- `Url::parse` on plain URLs, and an error on every other text. -/
def parsePlain (s : String) : Except ParseError Url :=
  match s.toList.dropWhile Char.isAlpha with
  | ':' :: '/' :: '/' :: rest =>
    plainAfterScheme (toLowercase ⟨s.toList.takeWhile Char.isAlpha⟩) rest
  | _ => .error .relativeUrlWithoutBase

example : parsePlain "HTTPS://EXAMPLE@example/" =
    .ok ⟨"https", "EXAMPLE", none, some (.domain "example"), none, "/", none, none⟩ := rfl

/-! ## Plain text parses -/

theorem parsePlain_scheme {s : String} {rest : List Char}
    (h : s.toList.dropWhile Char.isAlpha = ':' :: '/' :: '/' :: rest) :
    parsePlain s = plainAfterScheme (toLowercase ⟨s.toList.takeWhile Char.isAlpha⟩) rest := by
  rw [parsePlain, h]
  rfl

theorem takeWhile_dropWhile_alpha {xs : List Char} (hx : ∀ c ∈ xs, c.isAlpha) {y : Char}
    (hy : y.isAlpha = false) (ys : List Char) :
    (xs ++ y :: ys).takeWhile Char.isAlpha = xs ∧
      (xs ++ y :: ys).dropWhile Char.isAlpha = y :: ys := by
  constructor
  · rw [List.takeWhile_append_of_pos hx, List.takeWhile_cons_of_neg (by simp [hy]),
      List.append_nil]
  · rw [List.dropWhile_append_of_pos hx, List.dropWhile_cons_of_neg (by simp [hy])]

/-- The text after the scheme's `:` in a fragment part: `#` and the fragment. -/
def fragmentChars : Option String → List Char
  | none => []
  | some f => '#' :: f.toList

theorem asStr_toList {v : Url} (hv : Plain v) {d : String} (hd : v.host = some (.domain d)) :
    v.asStr.toList = v.scheme.toList ++ ':' :: '/' :: '/' ::
      (v.userinfo.toList ++ d.toList ++ '/' :: fragmentChars v.fragment) := by
  cases hf : v.fragment <;>
    simp [Url.asStr, Url.authority, hd, hv.no_port, hv.root_path, hv.no_query, hf, Host.text,
      fragmentChars, String.toList, String.data_append]

theorem userinfo_toList {v : Url} (hv : Plain v) :
    v.userinfo.toList = if v.username.toList = [] then [] else v.username.toList ++ ['@'] := by
  by_cases hu : v.username.toList = []
  · have : v.username = "" := String.ext hu
    simp [Url.userinfo, this, hv.no_password]
  · have : v.username ≠ "" := fun h => hu (by rw [h]; rfl)
    rw [if_neg hu]
    simp [Url.userinfo, this, hv.no_password, String.toList, String.data_append]

theorem plainAuthority_userinfo {u d : List Char} (hu : ∀ c ∈ u, c.isAlpha)
    (hd : ∀ c ∈ d, c.isAlpha) (fc : List Char) :
    plainAuthority ((if u = [] then [] else u ++ ['@']) ++ d ++ '/' :: fc) =
      (u, d, '/' :: fc) := by
  have hslash : ('/').isAlpha = false := by decide
  obtain ⟨ht', hdrop'⟩ := takeWhile_dropWhile_alpha hd hslash fc
  by_cases h : u = []
  · subst h
    rw [if_pos rfl, List.nil_append, plainAuthority, hdrop', ht']
    rfl
  · obtain ⟨ht, hdrop⟩ := takeWhile_dropWhile_alpha hu (y := '@') (by decide) (d ++ '/' :: fc)
    rw [if_neg h]
    simp only [List.append_assoc, List.singleton_append, List.cons_append, List.nil_append]
    rw [plainAuthority, hdrop, ht]
    show (u, (d ++ '/' :: fc).takeWhile Char.isAlpha, (d ++ '/' :: fc).dropWhile Char.isAlpha) = _
    rw [ht', hdrop']

theorem plainTail_fragmentChars {frag : Option String}
    (h : ∀ f, frag = some f → ∀ c ∈ f.toList, plainFragmentChar c) :
    plainTail ('/' :: fragmentChars frag) = some frag := by
  cases frag with
  | none => rfl
  | some f =>
    simp only [fragmentChars, plainTail, List.all_eq_true.2 (h f rfl), ↓reduceIte]
    rfl

/-- **A plain URL's text parses to it**, with scheme and host in lower case. -/
theorem parsePlain_plain {v : Url} (hv : Plain v) : parsePlain v.asStr = .ok v.lowerSchemeHost := by
  obtain ⟨d, hd, hdne, hdα⟩ := hv.domain
  obtain ⟨hts, hds⟩ := takeWhile_dropWhile_alpha hv.scheme_alpha (y := ':') (by decide)
    ('/' :: '/' :: (v.userinfo.toList ++ d.toList ++ '/' :: fragmentChars v.fragment))
  have hlow : toLowercase ⟨v.scheme.toList⟩ = "https" ∨ toLowercase ⟨v.scheme.toList⟩ = "http" :=
    hv.scheme_special
  rw [parsePlain_scheme (by rw [asStr_toList hv hd]; exact hds), asStr_toList hv hd, hts,
    userinfo_toList hv]
  simp only [plainAfterScheme, plainAuthority_userinfo hv.username_alpha hdα,
    plainTail_fragmentChars hv.fragment_plain]
  rw [if_pos (And.intro hlow hdne)]
  obtain ⟨scheme, username, password, host, port, path, query, fragment⟩ := v
  obtain ⟨-, -, -, hpw, -, hpo, hpa, hq, -⟩ := hv
  simp only at hd hpw hpo hpa hq
  subst hd hpw hpo hpa hq
  rfl

/-! ## What parses is plain -/

theorem plainAuthority_alpha (cs : List Char) :
    (∀ c ∈ (plainAuthority cs).1, c.isAlpha) ∧ (∀ c ∈ (plainAuthority cs).2.1, c.isAlpha) := by
  unfold plainAuthority
  split
  · exact ⟨fun c hc => List.mem_takeWhile_imp hc, fun c hc => List.mem_takeWhile_imp hc⟩
  · exact ⟨fun c hc => absurd hc (List.not_mem_nil c), fun c hc => List.mem_takeWhile_imp hc⟩

theorem plainTail_plain {t : List Char} {frag : Option String} (h : plainTail t = some frag) :
    ∀ f, frag = some f → ∀ c ∈ f.toList, plainFragmentChar c := by
  unfold plainTail at h
  split at h
  · cases h
    exact fun f hf => nomatch hf
  · split at h
    · cases h
      rintro f ⟨⟩
      exact List.all_eq_true.1 ‹_›
    · cases h
  · cases h

theorem toLowercase_alpha {s : String} (h : ∀ c ∈ s.toList, c.isAlpha) :
    ∀ c ∈ (toLowercase s).toList, c.isAlpha := by
  intro c hc
  obtain ⟨c', hc', rfl⟩ := List.mem_map.1 hc
  rw [isAlpha_toLower]
  exact h c' hc'

theorem toUppercase_alpha {s : String} (h : ∀ c ∈ s.toList, c.isAlpha) :
    ∀ c ∈ (toUppercase s).toList, c.isAlpha := by
  intro c hc
  obtain ⟨c', hc', rfl⟩ := List.mem_map.1 hc
  rw [isAlpha_toUpper]
  exact h c' hc'

/-- What `parsePlain` returns is plain, with scheme and host already in lower case. -/
theorem parsePlain_ok {s : String} {u : Url} (h : parsePlain s = .ok u) :
    Plain u ∧ u.lowerSchemeHost = u := by
  unfold parsePlain at h
  split at h
  · rename_i rest _
    obtain ⟨hua, hda⟩ := plainAuthority_alpha rest
    unfold plainAfterScheme at h
    split at h
    rename_i username domain tail hpa
    rw [hpa] at hua hda
    split at h
    · rename_i fragment hft
      split at h
      · rename_i hif
        cases h
        refine ⟨⟨toLowercase_alpha fun c hc => List.mem_takeWhile_imp hc,
          by simpa only [toLowercase_toLowercase] using hif.1, hua, rfl,
          ⟨_, rfl, ?_, toLowercase_alpha hda⟩, rfl, rfl, rfl, plainTail_plain hft⟩, ?_⟩
        · simpa [toLowercase, String.toList] using hif.2
        · simp [Url.lowerSchemeHost, Url.mapSchemeHost, Host.mapText]
      · cases h
    · cases h
  · cases h

theorem Plain.upcase {v : Url} (hv : Plain v) : Plain v.upcaseSchemeHost := by
  obtain ⟨d, hd, hdne, hdα⟩ := hv.domain
  refine ⟨toUppercase_alpha hv.scheme_alpha, ?_, hv.username_alpha, hv.no_password,
    ⟨toUppercase d, by simp [Url.upcaseSchemeHost, Url.mapSchemeHost, hd, Host.mapText], ?_,
      toUppercase_alpha hdα⟩, hv.no_port, hv.root_path, hv.no_query, hv.fragment_plain⟩
  · simpa [Url.upcaseSchemeHost, Url.mapSchemeHost] using hv.scheme_special
  · simpa [toUppercase, String.toList] using hdne

theorem lowerSchemeHost_upcaseSchemeHost (v : Url) :
    v.upcaseSchemeHost.lowerSchemeHost = v.lowerSchemeHost := by
  obtain ⟨scheme, username, password, host, port, path, query, fragment⟩ := v
  cases host with
  | none => simp [Url.lowerSchemeHost, Url.upcaseSchemeHost, Url.mapSchemeHost]
  | some h => cases h <;> simp [Url.lowerSchemeHost, Url.upcaseSchemeHost, Url.mapSchemeHost,
      Host.mapText]

/-- **`parsePlain` meets the contract.** -/
theorem parsePlain_spec : UrlParseSpec parsePlain where
  special_host s u h _ := by
    obtain ⟨hv, -⟩ := parsePlain_ok h
    obtain ⟨d, hd, -⟩ := hv.domain
    simp [hd]
  upcase_reparse s u h _ := by
    obtain ⟨hv, hlow⟩ := parsePlain_ok h
    rw [parsePlain_plain hv.upcase, lowerSchemeHost_upcaseSchemeHost, hlow]
  plain _ := parsePlain_plain

end PayjoinUri.UrlParse
