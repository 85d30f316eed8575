import PayjoinUri.Exchange

/-! The receiver's endpoint as a state machine: any sequence of calls of
`set_receiver_pubkey`, `set_ohttp` and `set_exp` on a URL. Its abstract model keeps only
what the three getters return, and each call sets the value of its own getter
(`SetterCall.update`). From a URL whose fragment `check_fragment_delimiter` accepts with
no two tokens under one key, a run returns exactly when every `set_exp` in it is below
`2^32` seconds, and then the getters read what the abstract run computes and the URL is
unchanged outside its fragment (`runSetters_refines`). -/

namespace PayjoinUri.Receiver

open UrlCrate Fragment FragmentStore Collaborators UrlExt Serialize Exchange

variable {PubKey Keys : Type}

/-! ## The calls and the two machines -/

/-- A call of one of the setters of `UrlExt`. -/
inductive SetterCall (PubKey Keys : Type) where
  | setReceiverPubkey (pubkey : PubKey)
  | setOhttp (ohttp : Keys)
  | setExp (exp : SystemTime)

/-- A call on a URL, `none` where it panics. -/
def SetterCall.apply (c : Codecs PubKey Keys) : SetterCall PubKey Keys → Url → Option Url
  | .setReceiverPubkey pk, url => UrlExt.setReceiverPubkey c url pk
  | .setOhttp k, url => UrlExt.setOhttp c url k
  | .setExp t, url => UrlExt.setExp c url t

/-- A run of calls, `none` from the first call that panics. -/
def runSetters (c : Codecs PubKey Keys) : Url → List (SetterCall PubKey Keys) → Option Url
  | url, [] => some url
  | url, call :: calls => (call.apply c url).bind (runSetters c · calls)

/-- A call that does not panic on a valid fragment: `set_exp` below `2^32` seconds. -/
def SetterCall.InRange : SetterCall PubKey Keys → Prop
  | .setExp t => t.secs < (2 ^ 32 : Nat)
  | _ => True

/-- What the three getters return. -/
structure Reads (PubKey Keys : Type) where
  receiverPubkey : Except ParseReceiverPubkeyParamError PubKey
  ohttp : Except ParseOhttpKeysParamError Keys
  exp : Except ParseExpParamError SystemTime

/-- The getters on a URL. -/
def reads (c : Codecs PubKey Keys) (url : Url) : Reads PubKey Keys :=
  ⟨receiverPubkey c url, ohttp c url, exp c url⟩

/-- The abstract receiver: a call sets what its getter returns, an expiry as whole seconds
after the epoch, a time before the epoch as the epoch. -/
def SetterCall.update : SetterCall PubKey Keys → Reads PubKey Keys → Reads PubKey Keys
  | .setReceiverPubkey pk, r => { r with receiverPubkey := .ok pk }
  | .setOhttp k, r => { r with ohttp := .ok k }
  | .setExp t, r => { r with exp := .ok ⟨max t.secs 0, 0⟩ }

/-- The fragment the typed getters and setters work on: accepted, one token per key. -/
def ValidFragment (url : Url) : Prop :=
  ∃ d, checkFragmentDelimiter (url.fragment.getD "") = .ok d ∧
    ((tokens (url.fragment.getD "") d).map paramKey).Nodup

theorem validFragment_of_rendered {url u : Url} (h : Rendered url u) : ValidFragment u :=
  ⟨'-', h.canonical⟩

/-! ## One call -/

/-- The getters on what a call returned, from what each getter reads after it. -/
theorem reads_eq (c : Codecs PubKey Keys) {w : Option Url} {u : Url} (h : w = some u)
    {r : Reads PubKey Keys} (h₁ : w.map (receiverPubkey c) = some r.receiverPubkey)
    (h₂ : w.map (ohttp c) = some r.ohttp) (h₃ : w.map (exp c) = some r.exp) :
    reads c u = r := by
  rw [reads, eq_of_map_eq_some h h₁, eq_of_map_eq_some h h₂, eq_of_map_eq_some h h₃]

section Step

variable (c : Codecs PubKey Keys) {url : Url} (hv : ValidFragment url)
include hv

/-- A call that returns writes a rendered fragment and moves its own getter only. -/
theorem apply_reads {call : SetterCall PubKey Keys} {u : Url} (h : call.apply c url = some u) :
    Rendered url u ∧ reads c u = call.update (reads c url) := by
  obtain ⟨d, hd, hkeys⟩ := hv
  cases call with
  | setReceiverPubkey pk =>
    obtain ⟨u', hu', hr⟩ := setReceiverPubkey_rendered c hd pk
    obtain rfl : u' = u := Option.some.inj (hu'.symm.trans h)
    have hf := setReceiverPubkey_frame c hd hkeys pk
    exact ⟨hr, reads_eq c h (receiverPubkey_setReceiverPubkey c hd pk) hf.1 hf.2⟩
  | setOhttp k =>
    obtain ⟨u', hu', hr⟩ := setOhttp_rendered c hd k
    obtain rfl : u' = u := Option.some.inj (hu'.symm.trans h)
    have hf := setOhttp_frame c hd hkeys k
    exact ⟨hr, reads_eq c h hf.1 (ohttp_setOhttp c hd k) hf.2⟩
  | setExp t =>
    by_cases ht : t.secs < (2 ^ 32 : Nat)
    · obtain ⟨u', hu', hr⟩ := setExp_rendered c hd ht
      obtain rfl : u' = u := Option.some.inj (hu'.symm.trans h)
      have hf := setExp_frame c hd hkeys ht
      exact ⟨hr, reads_eq c h hf.1 hf.2 (exp_setExp c hd ht)⟩
    · simp [SetterCall.apply, setExp_eq_none c ht] at h

/-- A call returns exactly when it is in range. -/
theorem apply_isSome (call : SetterCall PubKey Keys) :
    (call.apply c url).isSome ↔ call.InRange := by
  obtain ⟨d, hd, -⟩ := hv
  cases call with
  | setReceiverPubkey pk =>
    obtain ⟨u, hu, -⟩ := setReceiverPubkey_rendered c hd pk
    simp [SetterCall.apply, SetterCall.InRange, hu]
  | setOhttp k =>
    obtain ⟨u, hu, -⟩ := setOhttp_rendered c hd k
    simp [SetterCall.apply, SetterCall.InRange, hu]
  | setExp t =>
    by_cases ht : t.secs < (2 ^ 32 : Nat)
    · obtain ⟨u, hu, -⟩ := setExp_rendered c hd ht
      simpa [SetterCall.apply, SetterCall.InRange, hu] using ht
    · simpa [SetterCall.apply, SetterCall.InRange, setExp_eq_none c ht] using ht

end Step

/-! ## Runs -/

/-- **A run of setter calls refines the abstract receiver.** From a URL whose fragment
`check_fragment_delimiter` accepts with no two tokens under one key, a run of calls of
`set_receiver_pubkey`, `set_ohttp` and `set_exp` returns exactly when every `set_exp` in it
is below `2^32` seconds; the URL it returns differs from the first only in its fragment, and
on it the getters return what the abstract run computes from what they returned before:
for each getter, the value of the last call of its setter, or the value before if there
was none. -/
theorem runSetters_refines (c : Codecs PubKey Keys) {url : Url} (hv : ValidFragment url)
    (calls : List (SetterCall PubKey Keys)) :
    ((runSetters c url calls).isSome ↔ ∀ call ∈ calls, call.InRange) ∧
    ∀ u, runSetters c url calls = some u →
      reads c u = calls.foldl (fun r call => call.update r) (reads c url) ∧
      { u with fragment := url.fragment } = url := by
  induction calls generalizing url with
  | nil => exact ⟨by simp [runSetters], fun u h => by cases h; exact ⟨rfl, rfl⟩⟩
  | cons call calls ih =>
    cases h₁ : call.apply c url with
    | none =>
      have hr : ¬call.InRange := by simpa [h₁] using (apply_isSome c hv call).not
      refine ⟨?_, fun u h => ?_⟩
      · simp only [runSetters, h₁, Option.none_bind, Option.isSome_none, Bool.false_eq_true,
          List.mem_cons, forall_eq_or_imp, false_iff, not_and]
        exact fun h => absurd h hr
      · simp [runSetters, h₁] at h
    | some u₁ =>
      have hr : call.InRange := (apply_isSome c hv call).1 (by simp [h₁])
      obtain ⟨hrend, hreads⟩ := apply_reads c hv h₁
      obtain ⟨hsome, hrun⟩ := ih (validFragment_of_rendered hrend)
      refine ⟨?_, fun u h => ?_⟩
      · simp only [runSetters, h₁, Option.some_bind, List.mem_cons, forall_eq_or_imp]
        exact ⟨fun h => ⟨hr, hsome.1 h⟩, fun h => hsome.2 h.2⟩
      · rw [runSetters, h₁, Option.some_bind] at h
        obtain ⟨hu, hframe⟩ := hrun u h
        refine ⟨by rw [hu, hreads, List.foldl_cons], ?_⟩
        obtain ⟨m, -, -, rfl⟩ := hrend
        exact congrArg (fun v : Url => { v with fragment := url.fragment }) hframe

/-- Two expiries around a public key, on the plain example endpoint. -/
def exampleCalls : List (SetterCall RefPubKey RefKeys) :=
  [.setExp ⟨1720547781, 0⟩, .setReceiverPubkey examplePubkey, .setExp ⟨1720547782, 0⟩]

theorem runSetters_refines_example :
    ValidFragment exampleEndpoint ∧
    (((runSetters refCodecs exampleEndpoint exampleCalls).isSome ↔
        ∀ call ∈ exampleCalls, call.InRange) ∧
      ∀ u, runSetters refCodecs exampleEndpoint exampleCalls = some u →
        reads refCodecs u =
          exampleCalls.foldl (fun r call => call.update r) (reads refCodecs exampleEndpoint) ∧
        { u with fragment := exampleEndpoint.fragment } = exampleEndpoint) := by
  have hv : ValidFragment exampleEndpoint := ⟨'-', rfl, by decide⟩
  exact ⟨hv, runSetters_refines refCodecs hv exampleCalls⟩

end PayjoinUri.Receiver
