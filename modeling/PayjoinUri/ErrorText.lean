import PayjoinUri.UrlExt

/-! The `Display` impls of the fragment and parameter errors of `url_ext.rs`, and
`Error::source` of `ParseReceiverPubkeyParamError`. Each message is a text fixed by the
variant, followed by the message of the error the variant wraps; no fixed text begins
another of the same type, so two errors print the same message only if they are equal,
given that the wrapped errors' messages tell them apart (`fmt_injective`). A fragment that
`check_fragment_delimiter` rejects makes the three getters print one and the same message
(`getters_fragment_message`). -/

namespace PayjoinUri

open UrlCrate Fragment Collaborators UrlExt

/-! ## The messages -/

/-- The `Display` of the errors of other crates that the messages embed. -/
structure InnerDisplay where
  hrp : Hrp → String
  decodeBech32 : DecodeError → String
  consensus : EncodeError → String
  hpke : HpkeError → String
  ohttpKeys : ParseOhttpKeysError → String

/-- The messages of the other crates tell their errors apart. -/
structure InnerDisplay.Injective (d : InnerDisplay) : Prop where
  hrp : Function.Injective d.hrp
  decodeBech32 : Function.Injective d.decodeBech32
  consensus : Function.Injective d.consensus
  hpke : Function.Injective d.hpke
  ohttpKeys : Function.Injective d.ohttpKeys

/-- `Display for ParseFragmentError`. -/
def Fragment.ParseFragmentError.fmt : ParseFragmentError → String
  | .invalidChar c => "invalid character: " ++ c.toString ++ " (must be uppercase)"
  | .ambiguousDelimiter => "ambiguous fragment delimiter (both + and - found)"

/-- `Display for ParseOhttpKeysParamError`. -/
def UrlExt.ParseOhttpKeysParamError.fmt (d : InnerDisplay) : ParseOhttpKeysParamError → String
  | .missingOhttpKeys => "ohttp keys are missing"
  | .invalidOhttpKeys o => "invalid ohttp keys: " ++ d.ohttpKeys o
  | .invalidFragment e => "invalid URL fragment: " ++ e.fmt

/-- `Display for ParseExpParamError`. -/
def UrlExt.ParseExpParamError.fmt (d : InnerDisplay) : ParseExpParamError → String
  | .missingExp => "exp is missing"
  | .invalidHrp h => "incorrect hrp for exp: " ++ d.hrp h
  | .decodeBech32 e => "exp is not valid bech32: " ++ d.decodeBech32 e
  | .invalidExp i => "exp param does not contain a bitcoin consensus encoded u32: " ++ d.consensus i
  | .invalidFragment e => "invalid URL fragment: " ++ e.fmt

/-- `Display for ParseReceiverPubkeyParamError`. -/
def UrlExt.ParseReceiverPubkeyParamError.fmt (d : InnerDisplay) :
    ParseReceiverPubkeyParamError → String
  | .missingPubkey => "receiver public key is missing"
  | .invalidHrp h => "incorrect hrp for receiver key: " ++ d.hrp h
  | .decodeBech32 e => "receiver public is not valid base64: " ++ d.decodeBech32 e
  | .invalidPubkey e => "receiver public key does not represent a valid pubkey: " ++ d.hpke e
  | .invalidFragment e => "invalid URL fragment: " ++ e.fmt

/-- The errors `ParseReceiverPubkeyParamError::source` returns, as `dyn Error`. -/
inductive SourceError where
  | decodeBech32 (e : DecodeError)
  | hpke (e : HpkeError)
  | fragment (e : ParseFragmentError)

/-- The `Display` of a source error is that of the error it is. -/
def SourceError.fmt (d : InnerDisplay) : SourceError → String
  | .decodeBech32 e => d.decodeBech32 e
  | .hpke e => d.hpke e
  | .fragment e => e.fmt

/-- `Error::source for ParseReceiverPubkeyParamError`. -/
def UrlExt.ParseReceiverPubkeyParamError.source :
    ParseReceiverPubkeyParamError → Option SourceError
  | .missingPubkey => none
  | .invalidHrp _ => none
  | .decodeBech32 error => some (.decodeBech32 error)
  | .invalidPubkey error => some (.hpke error)
  | .invalidFragment error => some (.fragment error)

namespace ErrorText

/-! ## Telling messages apart -/

/-- Two messages whose fixed texts do not begin one another differ. -/
theorem append_ne_append {p q : String} (x y : String) (h₁ : ¬ p.data <+: q.data)
    (h₂ : ¬ q.data <+: p.data) : p ++ x ≠ q ++ y := by
  intro h
  have h' : p.data ++ x.data = q.data ++ y.data := congrArg String.data h
  rcases List.prefix_or_prefix_of_prefix (List.prefix_append p.data x.data)
    (h' ▸ List.prefix_append q.data y.data) with hp | hp
  exacts [h₁ hp, h₂ hp]

/-- A fixed text that does not begin another differs from it followed by anything. -/
theorem ne_append {p q : String} (y : String) (h₁ : ¬ p.data <+: q.data)
    (h₂ : ¬ q.data <+: p.data) : p ≠ q ++ y := by
  simpa using append_ne_append "" y h₁ h₂

@[simp]
theorem append_left_cancel_iff {p x y : String} : p ++ x = p ++ y ↔ x = y :=
  ⟨fun h => String.ext (List.append_cancel_left (congrArg String.data h)), congrArg _⟩

theorem fmt_fragment_injective : Function.Injective ParseFragmentError.fmt := by
  intro a b h
  cases a <;> cases b <;> simp only [ParseFragmentError.fmt, String.append_assoc] at h
  case invalidChar.invalidChar c c' =>
    have h' := congrArg String.data (append_left_cancel_iff.1 h)
    simp [Char.toString, String.singleton, String.push] at h'
    rw [h']
  case invalidChar.ambiguousDelimiter => exact absurd h.symm (ne_append _ (by decide) (by decide))
  case ambiguousDelimiter.invalidChar => exact absurd h (ne_append _ (by decide) (by decide))
  case ambiguousDelimiter.ambiguousDelimiter => rfl

section Display

variable {d : InnerDisplay} (hd : d.Injective)
include hd

theorem fmt_ohttp_injective : Function.Injective (ParseOhttpKeysParamError.fmt d) := by
  intro a b h
  cases a <;> cases b <;> simp only [ParseOhttpKeysParamError.fmt, append_left_cancel_iff] at h
  all_goals first
    | rfl
    | exact congrArg _ (hd.ohttpKeys h)
    | exact congrArg _ (fmt_fragment_injective h)
    | exact absurd h (append_ne_append _ _ (by decide) (by decide))
    | exact absurd h (ne_append _ (by decide) (by decide))
    | exact absurd h.symm (ne_append _ (by decide) (by decide))

theorem fmt_exp_injective : Function.Injective (ParseExpParamError.fmt d) := by
  intro a b h
  cases a <;> cases b <;> simp only [ParseExpParamError.fmt, append_left_cancel_iff] at h
  all_goals first
    | rfl
    | exact congrArg _ (hd.hrp h)
    | exact congrArg _ (hd.decodeBech32 h)
    | exact congrArg _ (hd.consensus h)
    | exact congrArg _ (fmt_fragment_injective h)
    | exact absurd h (append_ne_append _ _ (by decide) (by decide))
    | exact absurd h (ne_append _ (by decide) (by decide))
    | exact absurd h.symm (ne_append _ (by decide) (by decide))

theorem fmt_receiverPubkey_injective :
    Function.Injective (ParseReceiverPubkeyParamError.fmt d) := by
  intro a b h
  cases a <;> cases b <;> simp only [ParseReceiverPubkeyParamError.fmt, append_left_cancel_iff] at h
  all_goals first
    | rfl
    | exact congrArg _ (hd.hrp h)
    | exact congrArg _ (hd.decodeBech32 h)
    | exact congrArg _ (hd.hpke h)
    | exact congrArg _ (fmt_fragment_injective h)
    | exact absurd h (append_ne_append _ _ (by decide) (by decide))
    | exact absurd h (ne_append _ (by decide) (by decide))
    | exact absurd h.symm (ne_append _ (by decide) (by decide))

end Display

/-- The message of an error with a source ends with the source's message. -/
theorem fmt_source {d : InnerDisplay} {e : ParseReceiverPubkeyParamError} {s : SourceError}
    (h : e.source = some s) : ∃ text, e.fmt d = text ++ s.fmt d := by
  cases e <;> cases h <;> exact ⟨_, rfl⟩

/-- **Messages tell errors apart.** When the messages of the other crates' errors (HRPs,
bech32 decoding, consensus decoding, HPKE, OHTTP keys) tell those apart, the four `Display`
impls are injective: two errors of one type print the same message only if they are equal.
Every error `ParseReceiverPubkeyParamError::source` returns a source for prints a message
that ends with the source's message. -/
theorem fmt_injective {d : InnerDisplay} (hd : d.Injective) :
    Function.Injective ParseFragmentError.fmt ∧
    Function.Injective (ParseOhttpKeysParamError.fmt d) ∧
    Function.Injective (ParseExpParamError.fmt d) ∧
    Function.Injective (ParseReceiverPubkeyParamError.fmt d) ∧
    ∀ e s, ParseReceiverPubkeyParamError.source e = some s → ∃ text, e.fmt d = text ++ s.fmt d :=
  ⟨fmt_fragment_injective, fmt_ohttp_injective hd, fmt_exp_injective hd,
    fmt_receiverPubkey_injective hd, fun _ _ => fmt_source⟩

/-- Messages that print an HRP as its text, as `bech32` does, the decoding, HPKE and OHTTP
key errors by their descriptions, and the short read as `io::Error` prints it. -/
def descriptionDisplay : InnerDisplay :=
  ⟨Hrp.text, DecodeError.description, fun _ => "unexpected end of file", HpkeError.description,
    ParseOhttpKeysError.description⟩

theorem fmt_injective_descriptions :
    descriptionDisplay.Injective ∧
    Function.Injective ParseFragmentError.fmt ∧
    Function.Injective (ParseOhttpKeysParamError.fmt descriptionDisplay) ∧
    Function.Injective (ParseExpParamError.fmt descriptionDisplay) ∧
    Function.Injective (ParseReceiverPubkeyParamError.fmt descriptionDisplay) ∧
    ∀ e s, ParseReceiverPubkeyParamError.source e = some s →
      ∃ text, e.fmt descriptionDisplay = text ++ s.fmt descriptionDisplay := by
  have hd : descriptionDisplay.Injective :=
    ⟨fun ⟨_⟩ ⟨_⟩ h => by cases h; rfl, fun ⟨_⟩ ⟨_⟩ h => by cases h; rfl,
      fun .unexpectedEof .unexpectedEof _ => rfl, fun ⟨_⟩ ⟨_⟩ h => by cases h; rfl,
      fun ⟨_⟩ ⟨_⟩ h => by cases h; rfl⟩
  exact ⟨hd, fmt_injective hd⟩

/-! ## The getters' messages for a rejected fragment -/

section Getters

variable {d : InnerDisplay} {m : String}

theorem ohttp_fmt_eq_invalidFragment {x : ParseOhttpKeysParamError} :
    x.fmt d = "invalid URL fragment: " ++ m ↔ ∃ e, x = .invalidFragment e ∧ e.fmt = m := by
  cases x <;> simp only [ParseOhttpKeysParamError.fmt, append_left_cancel_iff,
    ParseOhttpKeysParamError.invalidFragment.injEq, exists_eq_left', reduceCtorEq, false_and,
    exists_false, iff_false]
  · exact ne_append _ (by decide) (by decide)
  · exact append_ne_append _ _ (by decide) (by decide)

theorem exp_fmt_eq_invalidFragment {x : ParseExpParamError} :
    x.fmt d = "invalid URL fragment: " ++ m ↔ ∃ e, x = .invalidFragment e ∧ e.fmt = m := by
  cases x <;> simp only [ParseExpParamError.fmt, append_left_cancel_iff,
    ParseExpParamError.invalidFragment.injEq, exists_eq_left', reduceCtorEq, false_and,
    exists_false, iff_false]
  all_goals first
    | exact ne_append _ (by decide) (by decide)
    | exact append_ne_append _ _ (by decide) (by decide)

theorem receiverPubkey_fmt_eq_invalidFragment {x : ParseReceiverPubkeyParamError} :
    x.fmt d = "invalid URL fragment: " ++ m ↔ ∃ e, x = .invalidFragment e ∧ e.fmt = m := by
  cases x <;> simp only [ParseReceiverPubkeyParamError.fmt, append_left_cancel_iff,
    ParseReceiverPubkeyParamError.invalidFragment.injEq, exists_eq_left', reduceCtorEq,
    false_and, exists_false, iff_false]
  all_goals first
    | exact ne_append _ (by decide) (by decide)
    | exact append_ne_append _ _ (by decide) (by decide)

/-- A getter whose only error printed as `invalid URL fragment: m` is `InvalidFragment`, and
which fails with `InvalidFragment(e)` exactly on a fragment rejected with `e`, prints that
text exactly then. -/
theorem getter_fragment_message {ε α : Type} {fmt : ε → String}
    {invalidFragment : ParseFragmentError → ε} {g : Except ε α} {url : Url}
    (hfmt : ∀ x, fmt x = "invalid URL fragment: " ++ m ↔
      ∃ e, x = invalidFragment e ∧ e.fmt = m)
    (herr : ∀ e, g = .error (invalidFragment e) ↔ FragmentRejected url e) :
    g.mapError fmt = .error ("invalid URL fragment: " ++ m) ↔
      ∃ e, FragmentRejected url e ∧ e.fmt = m := by
  constructor
  · intro h
    cases hg : g with
    | ok a => simp [hg, Except.mapError] at h
    | error x =>
      simp only [hg, Except.mapError, Except.error.injEq] at h
      obtain ⟨e, rfl, rfl⟩ := (hfmt x).1 h
      exact ⟨e, (herr e).1 hg, rfl⟩
  · rintro ⟨e, he, rfl⟩
    rw [(herr e).2 he]
    exact congrArg Except.error ((hfmt _).2 ⟨e, rfl, rfl⟩)

end Getters

/-- **The getters print "invalid URL fragment" exactly for a rejected fragment.** Each of
`receiver_pubkey`, `ohttp` and `exp` fails with the message `invalid URL fragment: m` exactly
when the URL has a fragment that `check_fragment_delimiter` rejects with an error printed as
`m`; the three then print the same message. -/
theorem getters_fragment_message {PubKey Keys : Type} (c : Codecs PubKey Keys) (d : InnerDisplay)
    (url : Url) (m : String) :
    ((receiverPubkey c url).mapError (·.fmt d) = .error ("invalid URL fragment: " ++ m) ↔
      ∃ e, FragmentRejected url e ∧ e.fmt = m) ∧
    ((ohttp c url).mapError (·.fmt d) = .error ("invalid URL fragment: " ++ m) ↔
      ∃ e, FragmentRejected url e ∧ e.fmt = m) ∧
    ((exp c url).mapError (·.fmt d) = .error ("invalid URL fragment: " ++ m) ↔
      ∃ e, FragmentRejected url e ∧ e.fmt = m) :=
  ⟨getter_fragment_message (fun _ => receiverPubkey_fmt_eq_invalidFragment)
      fun e => ((receiverPubkey_fragment_errors c url).1 e).trans getParam_eq_error,
    getter_fragment_message (fun _ => ohttp_fmt_eq_invalidFragment)
      fun e => ((ohttp_fragment_errors c url).1 e).trans getParam_eq_error,
    getter_fragment_message (fun _ => exp_fmt_eq_invalidFragment)
      fun e => ((exp_fragment_errors c url).1 e).trans getParam_eq_error⟩

end ErrorText

end PayjoinUri
