import Mathlib.Data.List.Nodup
import PayjoinUri.Fragment

/-! The fragment store seen as a map. A fragment that `check_fragment_delimiter`
accepts stands for the `BTreeMap` that `set_param` collects from it; `set_param`
is `BTreeMap.insert` on that map followed by writing the map back as text
(`setParam_eq`), and the text it writes stands for the same map again
(`fragmentParams_render`). A run of writes is therefore a run of inserts
(`setParams_eq`), which gives the normal form of the fragment and what a write
does to a later read. -/

namespace PayjoinUri.FragmentStore

open Text UrlCrate Fragment

/-- A token as the typed setters write it: non-empty, over `0`-`9` and `A`-`Z`. -/
def ValidToken (t : String) : Prop := t.toList ≠ [] ∧ ∀ c ∈ t.toList, tokenChar c

instance : DecidablePred ValidToken := fun _ => inferInstanceAs (Decidable (_ ∧ _))

/-- A map that fragment text stands for: each value a valid token, filed under its own key. -/
def Keyed (m : BTreeMap) : Prop := ∀ e ∈ m.entries, e.1 = paramKey e.2 ∧ ValidToken e.2

/-- The text `set_param` writes for a map: its values in key order, joined with `-`. -/
def render (m : BTreeMap) : String := String.intercalate "-" m.values

/-- The map after writing the tokens `ts` in turn. -/
def writeAll (m : BTreeMap) (ts : List String) : BTreeMap :=
  ts.foldl (fun m t => m.insert (paramKey t) t) m

/-- `set_param` with each token in turn, `none` if one of them panics. -/
def setParams (url : Url) : List String → Option Url
  | [] => some url
  | t :: ts => (setParam url t).bind (setParams · ts)

/-- `https://example.com/` with the fragment `f`. -/
def exampleComUrl (f : String) : Url :=
  ⟨"https", "", none, some (.domain "example.com"), none, "/", none, some f⟩

/-! ## Tokens and keyed maps -/

theorem tokens_valid {f : String} {d : Char} (hd : checkFragmentDelimiter f = .ok d) :
    ∀ p ∈ tokens f d, ValidToken p := by
  intro p hp
  obtain ⟨hsplit, hne⟩ := List.mem_filter.mp hp
  refine ⟨(isEmpty_eq_false_iff p).1 (by simpa using hne), fun c hc => ?_⟩
  obtain ⟨hcf, hcd⟩ := mem_of_mem_split hsplit c hc
  obtain ⟨hchars, hdelim⟩ := checkFragmentDelimiter_ok hd
  have := (fragmentChar_iff c).1 (hchars c hcf)
  have h45 : c.toNat ≠ 45 := fun h => by
    rcases hdelim with ⟨rfl, _⟩ | ⟨_, hm⟩
    · exact hcd ((char_eq_iff_toNat (d := '-')).2 h)
    · exact hm ((char_eq_iff_toNat (d := '-')).2 h ▸ hcf)
  have h43 : c.toNat ≠ 43 := fun h => by
    rcases hdelim with ⟨_, hp⟩ | ⟨rfl, _⟩
    · exact hp ((char_eq_iff_toNat (d := '+')).2 h ▸ hcf)
    · exact hcd ((char_eq_iff_toNat (d := '+')).2 h)
  tauto

theorem keyed_insert {m : BTreeMap} (hm : Keyed m) {t : String} (ht : ValidToken t) :
    Keyed (m.insert (paramKey t) t) := fun e he =>
  (BTreeMap.mem_insertEntries he).elim (fun h => h ▸ ⟨rfl, ht⟩) (hm e)

theorem keyed_writeAll {m : BTreeMap} (hm : Keyed m) {ts : List String}
    (hts : ∀ t ∈ ts, ValidToken t) : Keyed (writeAll m ts) := by
  induction ts generalizing m with
  | nil => exact hm
  | cons t ts ih =>
    exact ih (keyed_insert hm (hts t (List.mem_cons_self _ _)))
      fun t' h => hts t' (List.mem_cons_of_mem _ h)

theorem writeAll_ofList (l ts : List String) :
    writeAll (BTreeMap.ofList (l.map fun p => (paramKey p, p))) ts =
      BTreeMap.ofList ((l ++ ts).map fun p => (paramKey p, p)) := by
  simp [writeAll, BTreeMap.ofList, List.foldl_map]

theorem keyed_fragmentParams {f : String} {d : Char} (hd : checkFragmentDelimiter f = .ok d) :
    Keyed (fragmentParams f d) := by
  have h := keyed_writeAll (m := BTreeMap.empty) (fun e he => by cases he) (tokens_valid hd)
  rwa [show BTreeMap.empty = BTreeMap.ofList (([] : List String).map fun p => (paramKey p, p))
    from rfl, writeAll_ofList] at h

/-! ## The text of a map -/

theorem tokenChar_safe {c : Char} (h : tokenChar c ∨ c = '-') : fragmentSafe c := by
  rcases h with h | rfl
  · have := (tokenChar_iff c).1 h
    simp only [fragmentSafe, fragmentEncodes, Bool.or_eq_false_iff, decide_eq_false_iff_not,
      beq_eq_false_iff_ne]
    omega
  · decide

theorem render_chars {m : BTreeMap} (hm : Keyed m) :
    ∀ c ∈ (render m).toList, tokenChar c ∨ c = '-' := by
  intro c hc
  rcases mem_intercalate hc with h | ⟨v, hv, h⟩
  · exact .inr (by simpa using h)
  · obtain ⟨e, he, rfl⟩ := List.mem_map.mp hv
    exact .inl ((hm e he).2.2 c h)

theorem checkFragmentDelimiter_render {m : BTreeMap} (hm : Keyed m) :
    checkFragmentDelimiter (render m) = .ok '-' :=
  checkFragmentDelimiter_dash (render_chars hm)

theorem tokens_render {m : BTreeMap} (hm : Keyed m) (hne : m.entries ≠ []) :
    tokens (render m) '-' = m.values := by
  have hvals : ∀ v ∈ m.values, ValidToken v := fun v hv => by
    obtain ⟨e, he, rfl⟩ := List.mem_map.mp hv
    exact (hm e he).2
  have hsplit : split (render m) '-' = m.values :=
    split_intercalate' m.values '-' (by simpa [BTreeMap.values] using hne) fun v hv h => by
      simpa [tokenChar, Char.isDigit, Char.isUpper] using (hvals v hv).2 _ h
  rw [tokens, hsplit, List.filter_eq_self]
  intro v hv
  simpa using (isEmpty_eq_false_iff v).2 (hvals v hv).1

/-- **The text `set_param` writes stands for the map it wrote.** -/
theorem fragmentParams_render {m : BTreeMap} (hm : Keyed m) (hne : m.entries ≠ []) :
    fragmentParams (render m) '-' = m := by
  have hmap : m.values.map (fun p => (paramKey p, p)) = m.entries := by
    conv_rhs => rw [← List.map_id m.entries]
    simp only [BTreeMap.values, List.map_map]
    exact List.map_congr_left fun e he => Prod.ext (hm e he).1.symm rfl
  apply BTreeMap.ext
  rw [fragmentParams, tokens_render hm hne, hmap, BTreeMap.ofList_of_sorted m.sorted]

/-! ## `set_param` is an insert -/

theorem setParam_eq {url : Url} {d : Char}
    (hd : checkFragmentDelimiter (url.fragment.getD "") = .ok d) {t : String} (ht : ValidToken t) :
    setParam url t = some { url with fragment := some (render
      ((fragmentParams (url.fragment.getD "") d).insert (paramKey t) t)) } := by
  rw [setParam_of_ok t hd]
  exact congrArg some (setFragment_safe url (render _) fun c hc =>
    tokenChar_safe (render_chars (keyed_insert (keyed_fragmentParams hd) ht) c hc))

theorem entries_insert_ne_nil (m : BTreeMap) (k v : String) : (m.insert k v).entries ≠ [] := by
  have := m.isEmpty_insert k v
  simpa [BTreeMap.isEmpty] using this

/-- **A run of writes is a run of inserts.** -/
theorem setParams_eq {url : Url} {d : Char}
    (hd : checkFragmentDelimiter (url.fragment.getD "") = .ok d) {ts : List String} (hne : ts ≠ [])
    (hts : ∀ t ∈ ts, ValidToken t) :
    setParams url ts = some { url with fragment := some (render
      (writeAll (fragmentParams (url.fragment.getD "") d) ts)) } := by
  induction ts generalizing url d with
  | nil => exact absurd rfl hne
  | cons t ts ih =>
    have ht := hts t (List.mem_cons_self _ _)
    set m := (fragmentParams (url.fragment.getD "") d).insert (paramKey t) t with hm
    have hkeyed : Keyed m := keyed_insert (keyed_fragmentParams hd) ht
    rw [setParams, setParam_eq hd ht, Option.some_bind]
    cases ts with
    | nil => rfl
    | cons t' ts' =>
      have hd' : checkFragmentDelimiter
          (({ url with fragment := some (render m) } : Url).fragment.getD "") = .ok '-' :=
        checkFragmentDelimiter_render hkeyed
      rw [ih hd' (List.cons_ne_nil _ _) fun x hx => hts x (List.mem_cons_of_mem _ hx)]
      simp only [Option.getD_some, fragmentParams_render hkeyed (entries_insert_ne_nil _ _ _)]
      rfl

/-! ## The normal form of a run of writes -/

/-- The last of `l` filed under `k`: what the map holds for `k` once `l` is written in turn. -/
def lastWithKey (l : List String) (k : String) : Option String :=
  (l.filter (paramKey · == k)).getLast?

theorem get?_writeAll (f : String) (d : Char) (ts : List String) (k : String) :
    (writeAll (fragmentParams f d) ts).get? k = lastWithKey (tokens f d ++ ts) k := by
  rw [fragmentParams, writeAll_ofList, BTreeMap.get?_ofList, List.filter_map, List.getLast?_map,
    Option.map_map]
  simp [lastWithKey, Function.comp_def]

theorem mem_values_keyed {m : BTreeMap} (hm : Keyed m) (v : String) :
    v ∈ m.values ↔ m.get? (paramKey v) = some v := by
  rw [BTreeMap.mem_values_iff]
  constructor
  · rintro ⟨k, hk⟩
    have hkv : k = paramKey v := (hm _ ((BTreeMap.mem_entries_iff m k v).2 hk)).1
    rwa [hkv] at hk
  · exact fun h => ⟨_, h⟩

theorem values_sorted {m : BTreeMap} (hm : Keyed m) :
    m.values.Pairwise (fun a b => strLt (paramKey a) (paramKey b)) := by
  rw [BTreeMap.values, List.pairwise_map]
  exact m.sorted.imp_of_mem fun ha hb h => by rwa [← (hm _ ha).1, ← (hm _ hb).1]

theorem writeAll_repeat (m : BTreeMap) (ts : List String) (t : String) :
    writeAll m (ts ++ [t, t]) = writeAll m (ts ++ [t]) := by
  simp [writeAll, List.foldl_append, BTreeMap.insert_insert_self]

theorem writeAll_perm (m : BTreeMap) {ts ts' : List String} (hp : ts'.Perm ts)
    (hk : (ts.map paramKey).Nodup) : writeAll m ts' = writeAll m ts := by
  have hk' := (hp.map paramKey).nodup_iff.2 hk
  refine hp.foldl_eq' (fun x hx y hy z => ?_) m
  by_cases hxy : x = y
  · rw [hxy]
  · exact BTreeMap.insert_comm z (fun h => hxy (List.inj_on_of_nodup_map hk' hx hy h)) _ _

/-- **Normal form of the fragment store.** From a fragment that is absent or
accepted, writing valid tokens never panics and leaves the `-`-join, in ascending
key order, of the last token written under each key (the fragment's own tokens
first); the text is accepted with delimiter `-`, repeating a write changes
nothing, and writes with distinct keys commute. -/
theorem setParams_normal_form (url : Url) (d : Char) (ts : List String)
    (hd : checkFragmentDelimiter (url.fragment.getD "") = .ok d) (hne : ts ≠ [])
    (hts : ∀ t ∈ ts, ValidToken t) :
    ∃ vs : List String,
      setParams url ts = some { url with fragment := some (String.intercalate "-" vs) } ∧
      vs.Pairwise (fun a b => strLt (paramKey a) (paramKey b)) ∧
      (∀ v, v ∈ vs ↔ lastWithKey (tokens (url.fragment.getD "") d ++ ts) (paramKey v) = some v) ∧
      checkFragmentDelimiter (String.intercalate "-" vs) = .ok '-' ∧
      (∀ t, ValidToken t → setParams url (ts ++ [t, t]) = setParams url (ts ++ [t])) ∧
      (∀ ts', ts'.Perm ts → (ts.map paramKey).Nodup → setParams url ts' = setParams url ts) := by
  have hm := keyed_writeAll (keyed_fragmentParams hd) hts
  refine ⟨_, setParams_eq hd hne hts, values_sorted hm, fun v => ?_,
    checkFragmentDelimiter_render hm, fun t ht => ?_, fun ts' hp hk => ?_⟩
  · rw [mem_values_keyed hm, get?_writeAll]
  · have hv : ∀ x ∈ ts ++ [t], ValidToken x := fun x hx =>
      (List.mem_append.mp hx).elim (hts x) fun h => (List.mem_singleton.mp h) ▸ ht
    have hv2 : ∀ x ∈ ts ++ [t, t], ValidToken x := fun x hx =>
      (List.mem_append.mp hx).elim (hts x) fun h => by simp at h; exact h ▸ ht
    rw [setParams_eq hd (by simp) hv2, setParams_eq hd (by simp) hv, writeAll_repeat]
  · rw [setParams_eq hd (fun h => hne (List.Perm.nil_eq (h ▸ hp)).symm)
        fun x hx => hts x (hp.subset hx),
      setParams_eq hd hne hts, writeAll_perm _ hp hk]

theorem setParams_normal_form_legacy :
    setParams (exampleComUrl "OH1Q+EX1C") ["EX1D", "RK1A"] =
      some (exampleComUrl "EX1D-OH1Q-RK1A") ∧
    checkFragmentDelimiter "OH1Q+EX1C" = .ok '+' ∧ ["EX1D", "RK1A"] ≠ [] ∧
    (∀ t ∈ ["EX1D", "RK1A"], ValidToken t) ∧
    ∃ vs : List String,
      setParams (exampleComUrl "OH1Q+EX1C") ["EX1D", "RK1A"] =
        some (exampleComUrl (String.intercalate "-" vs)) ∧
      vs.Pairwise (fun a b => strLt (paramKey a) (paramKey b)) ∧
      (∀ v, v ∈ vs ↔
        lastWithKey (tokens "OH1Q+EX1C" '+' ++ ["EX1D", "RK1A"]) (paramKey v) = some v) ∧
      checkFragmentDelimiter (String.intercalate "-" vs) = .ok '-' ∧
      (∀ t, ValidToken t → setParams (exampleComUrl "OH1Q+EX1C") (["EX1D", "RK1A"] ++ [t, t]) =
        setParams (exampleComUrl "OH1Q+EX1C") (["EX1D", "RK1A"] ++ [t])) ∧
      (∀ ts', ts'.Perm ["EX1D", "RK1A"] → (["EX1D", "RK1A"].map paramKey).Nodup →
        setParams (exampleComUrl "OH1Q+EX1C") ts' =
          setParams (exampleComUrl "OH1Q+EX1C") ["EX1D", "RK1A"]) :=
  ⟨rfl, rfl, by simp, by decide,
    setParams_normal_form (exampleComUrl "OH1Q+EX1C") '+' _ rfl (by simp) (by decide)⟩

/-! ## Canonical fragments -/

/-- A fragment in the form `set_param` writes: accepted with the delimiter `-`, and no
two of its tokens share a key. -/
def Canonical (f : String) : Prop :=
  checkFragmentDelimiter f = .ok '-' ∧ ((tokens f '-').map paramKey).Nodup

theorem canonical_render {m : BTreeMap} (hm : Keyed m) (hne : m.entries ≠ []) :
    Canonical (render m) := by
  refine ⟨checkFragmentDelimiter_render hm, ?_⟩
  rw [tokens_render hm hne]
  exact List.pairwise_map.2 ((values_sorted hm).imp fun h e => by
    rw [e, strLt_irrefl] at h
    exact Bool.false_ne_true h)

/-- **`set_param` leaves a canonical fragment** and changes nothing else of the URL. -/
theorem setParam_canonical {url u : Url} {d : Char}
    (hd : checkFragmentDelimiter (url.fragment.getD "") = .ok d) {t : String} (ht : ValidToken t)
    (h : setParam url t = some u) :
    Canonical (u.fragment.getD "") ∧ { u with fragment := url.fragment } = url := by
  rw [setParam_eq hd ht, Option.some.injEq] at h
  subst h
  exact ⟨canonical_render (keyed_insert (keyed_fragmentParams hd) ht) (entries_insert_ne_nil _ _ _),
    rfl⟩

theorem setParam_canonical_legacy :
    checkFragmentDelimiter "OH1Q+EX1C" = .ok '+' ∧ ValidToken "RK1A" ∧
    setParam (exampleComUrl "OH1Q+EX1C") "RK1A" = some (exampleComUrl "EX1C-OH1Q-RK1A") ∧
    (Canonical "EX1C-OH1Q-RK1A" ∧
      { exampleComUrl "EX1C-OH1Q-RK1A" with fragment := some "OH1Q+EX1C" } =
        exampleComUrl "OH1Q+EX1C") :=
  ⟨rfl, by decide, rfl, @setParam_canonical (exampleComUrl "OH1Q+EX1C")
    (exampleComUrl "EX1C-OH1Q-RK1A") '+' rfl "RK1A" (by decide) rfl⟩

/-- **`set_param` panics exactly on a fragment `check_fragment_delimiter` rejects**,
whatever it is asked to write. -/
theorem setParam_isSome_iff (url : Url) (t : String) :
    (setParam url t).isSome ↔ ∃ d, checkFragmentDelimiter (url.fragment.getD "") = .ok d := by
  cases h : checkFragmentDelimiter (url.fragment.getD "") with
  | error e =>
    simp only [setParam, h, Except.toOption, Option.bind_eq_bind, Option.none_bind]
    exact ⟨nofun, fun ⟨_, h'⟩ => nomatch h'⟩
  | ok d =>
    rw [setParam_of_ok t h]
    exact ⟨fun _ => ⟨d, rfl⟩, fun _ => rfl⟩

/-! ## Reads after a write -/

theorem ne_nil_of_startsWith {p pre : String} (h : startsWith p pre) (hpre : pre.toList ≠ []) :
    p.toList ≠ [] := by
  intro hp
  have h' := List.isPrefixOf_iff_prefix.mp h
  rw [hp, List.prefix_nil] at h'
  exact hpre h'

/-- A token that starts with `k1`, for `k` without a `1`, is filed under `k`. -/
theorem paramKey_of_startsWith {p k : String} (hk : '1' ∉ k.toList)
    (h : startsWith p (k ++ "1")) : paramKey p = k := by
  obtain ⟨r, hr⟩ := List.isPrefixOf_iff_prefix.mp h
  have hk' : ∀ c ∈ k.toList, (c != '1') = true := fun c hc =>
    bne_iff_ne.2 fun e => hk (e ▸ hc)
  have hsplit : (k ++ "1").toList = k.toList ++ ['1'] := String.data_append k "1"
  rw [paramKey_eq, ← hr, hsplit, List.append_assoc, List.takeWhile_append_of_pos hk']
  exact String.ext (by simp)

/-- `get_param` reads the first token that starts with the prefix. -/
theorem getParam_eq_find? {url : Url} {d : Char}
    (hd : checkFragmentDelimiter (url.fragment.getD "") = .ok d) {pre : String}
    (hpre : pre.toList ≠ []) :
    getParam url pre = .ok ((tokens (url.fragment.getD "") d).find? (startsWith · pre)) := by
  cases hf : url.fragment with
  | none => simp [getParam, hf, tokens, split]; rfl
  | some f =>
    rw [getParam_of_ok pre hf (by simpa [hf] using hd), Option.getD_some, tokens, List.find?_filter]
    congr 2
    funext p
    by_cases hp : startsWith p pre
    · have := (isEmpty_eq_false_iff p).2 (ne_nil_of_startsWith hp hpre)
      simp [hp, this]
    · simp [hp]

theorem find?_map_snd {l : List (String × String)} (hl : l.Pairwise (fun a b => strLt a.1 b.1))
    (hkey : ∀ e ∈ l, e.1 = paramKey e.2) {p : String → Bool} {k : String}
    (hp : ∀ v, p v → paramKey v = k) :
    (l.map Prod.snd).find? p = ((l.find? (·.1 == k)).map Prod.snd).filter p := by
  induction l with
  | nil => rfl
  | cons e rest ih =>
    obtain ⟨hhd, htl⟩ := List.pairwise_cons.mp hl
    have ih' := ih htl fun e' he' => hkey e' (List.mem_cons_of_mem _ he')
    by_cases hpe : p e.2
    · have he : e.1 = k := (hkey e (List.mem_cons_self _ _)).trans (hp _ hpe)
      simp [hpe, he, Option.filter]
    · rw [List.map_cons, List.find?_cons_of_neg _ hpe]
      by_cases he : e.1 = k
      · refine (List.find?_eq_none.2 fun v hv hpv => ?_).trans (by simp [he, hpe, Option.filter])
        obtain ⟨e', he', rfl⟩ := List.mem_map.mp hv
        have hlt := hhd e' he'
        rw [he, (hkey e' (List.mem_cons_of_mem _ he')), hp _ hpv] at hlt
        simp [strLt_irrefl] at hlt
      · simp [he, ih']

/-- Reading `k1` from text `set_param` wrote finds what the map holds for `k`. -/
theorem getParam_render (url : Url) {m : BTreeMap} (hm : Keyed m) (hne : m.entries ≠ [])
    {k : String} (hk : '1' ∉ k.toList) :
    getParam { url with fragment := some (render m) } (k ++ "1") =
      .ok ((m.get? k).filter (startsWith · (k ++ "1"))) := by
  rw [@getParam_eq_find? { url with fragment := some (render m) } '-'
      (checkFragmentDelimiter_render hm) _ (by simp),
    Option.getD_some, tokens_render hm hne, BTreeMap.values,
    find?_map_snd m.sorted (fun e he => (hm e he).1) fun v hv => paramKey_of_startsWith hk hv]
  rfl

theorem one_not_mem_paramKey (p : String) : '1' ∉ (paramKey p).toList := by
  rw [paramKey_eq]
  intro h
  simpa using List.mem_takeWhile_imp h

/-- The map collected from a fragment holds, for each key, the fragment's last token with it. -/
theorem get?_fragmentParams (f : String) (d : Char) (k : String) :
    (fragmentParams f d).get? k = lastWithKey (tokens f d) k := by
  simpa using get?_writeAll f d [] k

/-- **A write is read back**: after `set_param` writes `t`, reading its key
finds `t`, provided `t` has a `1` after its key. -/
theorem getParam_setParam_self {url : Url} {d : Char}
    (hd : checkFragmentDelimiter (url.fragment.getD "") = .ok d) {t : String} (ht : ValidToken t)
    (h1 : startsWith t (paramKey t ++ "1")) :
    (setParam url t).map (getParam · (paramKey t ++ "1")) = some (.ok (some t)) := by
  have hm := keyed_insert (keyed_fragmentParams hd) ht
  rw [setParam_eq hd ht, Option.map_some', getParam_render url hm (entries_insert_ne_nil _ _ _)
    (one_not_mem_paramKey t), BTreeMap.get?_insert, if_pos rfl]
  simp [Option.filter, h1]

/-- `get_param` under a tag reads the token the map holds for it, when the fragment has at
most one token under that key. -/
theorem getParam_eq_get? {url : Url} {d : Char}
    (hd : checkFragmentDelimiter (url.fragment.getD "") = .ok d) {k : String}
    (hk : '1' ∉ k.toList)
    (hone : ((tokens (url.fragment.getD "") d).filter (paramKey · == k)).length ≤ 1) :
    getParam url (k ++ "1") =
      .ok (((fragmentParams (url.fragment.getD "") d).get? k).filter (startsWith · (k ++ "1"))) := by
  rw [get?_fragmentParams, getParam_eq_find? hd (by simp)]
  have hfind : ∀ l : List String, l.find? (startsWith · (k ++ "1")) =
      (l.filter (paramKey · == k)).find? (startsWith · (k ++ "1")) := fun l => by
    rw [List.find?_filter]
    congr 1
    funext v
    by_cases hv : startsWith v (k ++ "1")
    · simp [hv, paramKey_of_startsWith hk hv]
    · simp [hv]
  rw [hfind, lastWithKey]
  generalize (tokens (url.fragment.getD "") d).filter (paramKey · == k) = l at hone ⊢
  match l, hone with
  | [], _ => rfl
  | [u], _ => by_cases hu : startsWith u (k ++ "1") <;> simp [Option.filter, hu]
  | _ :: _ :: _, h => simp at h

/-- **A write leaves other keys' reads alone**, when the fragment held at most
one token under the key read. -/
theorem getParam_setParam_of_ne {url : Url} {d : Char}
    (hd : checkFragmentDelimiter (url.fragment.getD "") = .ok d) {t k : String}
    (ht : ValidToken t) (hk : '1' ∉ k.toList) (hkt : paramKey t ≠ k)
    (hone : ((tokens (url.fragment.getD "") d).filter (paramKey · == k)).length ≤ 1) :
    (setParam url t).map (getParam · (k ++ "1")) = some (getParam url (k ++ "1")) := by
  have hm := keyed_insert (keyed_fragmentParams hd) ht
  rw [setParam_eq hd ht, Option.map_some', getParam_render url hm (entries_insert_ne_nil _ _ _) hk,
    BTreeMap.get?_insert, if_neg hkt, getParam_eq_get? hd hk hone]

/-- When no two tokens share a key, each key has at most one token. -/
theorem filter_key_length_le_one {l : List String} (h : (l.map paramKey).Nodup) (k : String) :
    (l.filter (paramKey · == k)).length ≤ 1 := by
  induction l with
  | nil => simp
  | cons a l ih =>
    rw [List.map_cons, List.nodup_cons] at h
    rw [List.filter_cons]
    split_ifs with ha
    · have hnil : l.filter (paramKey · == k) = [] := List.filter_eq_nil_iff.2 fun b hb hbk =>
        h.1 (List.mem_map.2 ⟨b, hb, (beq_iff_eq.1 hbk).trans (beq_iff_eq.1 ha).symm⟩)
      simp [hnil]
    · exact ih h.2

/-! ## `set_param` as a store

The fragment parameters behave as a map from key to token once `set_param` has written
them: the last write under a key wins, writes under two keys commute, and writing back the
token `get_param` reads changes nothing. -/

/-- On a URL whose fragment `set_param` rendered from `m`, a write inserts into `m`. -/
theorem setParam_render (url : Url) {m : BTreeMap} (hm : Keyed m) (hne : m.entries ≠ [])
    {t : String} (ht : ValidToken t) :
    setParam { url with fragment := some (render m) } t =
      some { url with fragment := some (render (m.insert (paramKey t) t)) } := by
  rw [@setParam_eq { url with fragment := some (render m) } '-' (checkFragmentDelimiter_render hm)
    t ht, Option.getD_some, fragmentParams_render hm hne]

section Store

variable {url : Url} {d : Char} (hd : checkFragmentDelimiter (url.fragment.getD "") = .ok d)
include hd

/-- Two writes in turn write the map with both tokens inserted, in that order. -/
theorem setParam_bind_setParam {t t' : String} (ht : ValidToken t) (ht' : ValidToken t') :
    (setParam url t).bind (setParam · t') = some { url with fragment := some (render
      (((fragmentParams (url.fragment.getD "") d).insert (paramKey t) t).insert
        (paramKey t') t')) } := by
  have h := @setParams_eq url d hd [t, t'] (List.cons_ne_nil _ _) fun x hx => by
    rcases List.mem_pair.1 hx with rfl | rfl <;> assumption
  simpa only [setParams, Option.bind_some] using h

/-- **The last write under a key wins.** -/
theorem setParam_last_wins {t t' : String} (ht : ValidToken t) (ht' : ValidToken t')
    (hk : paramKey t = paramKey t') :
    (setParam url t).bind (setParam · t') = setParam url t' := by
  rw [setParam_bind_setParam hd ht ht', hk, BTreeMap.insert_insert, setParam_eq hd ht']

/-- **Writes under two keys commute.** -/
theorem setParam_comm {t t' : String} (ht : ValidToken t) (ht' : ValidToken t')
    (hk : paramKey t ≠ paramKey t') :
    (setParam url t).bind (setParam · t') = (setParam url t').bind (setParam · t) := by
  rw [setParam_bind_setParam hd ht ht', setParam_bind_setParam hd ht' ht,
    BTreeMap.insert_comm _ hk]

/-- **After any write, writing back the token `get_param` reads under a tag changes
nothing**: the fragment is then in the form `set_param` writes, sorted with one token per
key, and the token read is the one the map holds. -/
theorem setParam_getParam_of_setParam {t : String} (ht : ValidToken t) {u : Url}
    (hu : setParam url t = some u) {k v : String} (hk : '1' ∉ k.toList)
    (hv : getParam u (k ++ "1") = .ok (some v)) : setParam u v = some u := by
  rw [setParam_eq hd ht, Option.some.injEq] at hu
  subst hu
  have hm := keyed_insert (keyed_fragmentParams hd) ht
  have hne := entries_insert_ne_nil (fragmentParams (url.fragment.getD "") d) (paramKey t) t
  rw [getParam_render url hm hne hk, Except.ok.injEq, Option.filter_eq_some] at hv
  obtain ⟨hkey, hvalid⟩ := hm _ ((BTreeMap.mem_entries_iff _ _ _).2 hv.1)
  rw [setParam_render url hm hne hvalid, ← hkey, BTreeMap.insert_of_get? hv.1]

end Store

theorem setParam_getParam_of_setParam_legacy :
    checkFragmentDelimiter "OH1Q+EX1C" = .ok '+' ∧ ValidToken "RK1A" ∧
    setParam (exampleComUrl "OH1Q+EX1C") "RK1A" = some (exampleComUrl "EX1C-OH1Q-RK1A") ∧
    '1' ∉ "OH".toList ∧
    getParam (exampleComUrl "EX1C-OH1Q-RK1A") ("OH" ++ "1") = .ok (some "OH1Q") ∧
    setParam (exampleComUrl "EX1C-OH1Q-RK1A") "OH1Q" = some (exampleComUrl "EX1C-OH1Q-RK1A") :=
  ⟨rfl, by decide, rfl, by decide, rfl, @setParam_getParam_of_setParam
    (exampleComUrl "OH1Q+EX1C") '+' rfl "RK1A" (by decide) (exampleComUrl "EX1C-OH1Q-RK1A") rfl
    "OH" "OH1Q" (by decide) rfl⟩

/-! ## The map a fragment stands for -/

/-- The map a URL's fragment stands for, when `check_fragment_delimiter` accepts it. -/
def paramsOf (url : Url) : Option BTreeMap :=
  match checkFragmentDelimiter (url.fragment.getD "") with
  | .ok d => some (fragmentParams (url.fragment.getD "") d)
  | .error _ => none

theorem paramsOf_render (url : Url) {m : BTreeMap} (hm : Keyed m) (hne : m.entries ≠ []) :
    paramsOf { url with fragment := some (render m) } = some m := by
  simp only [paramsOf, Option.getD_some, checkFragmentDelimiter_render hm,
    fragmentParams_render hm hne]

/-- **The fragment refines a map from keys to tokens**: `set_param` of a valid token is
`insert` under its key on the map the fragment stands for, and panics exactly when there is
no such map; `get_param` under a tag reads the map's token for its key when no two tokens of
the fragment share a key. -/
theorem fragment_refines_map (url : Url) :
    (∀ t, ValidToken t → (setParam url t).map paramsOf =
      (paramsOf url).map fun m => some (m.insert (paramKey t) t)) ∧
    ∀ d, checkFragmentDelimiter (url.fragment.getD "") = .ok d →
      ((tokens (url.fragment.getD "") d).map paramKey).Nodup → ∀ k, '1' ∉ k.toList →
        getParam url (k ++ "1") = .ok
          (((fragmentParams (url.fragment.getD "") d).get? k).filter (startsWith · (k ++ "1"))) := by
  refine ⟨fun t ht => ?_, fun d hd hkeys k hk => getParam_eq_get? hd hk
    (filter_key_length_le_one hkeys k)⟩
  cases hd : checkFragmentDelimiter (url.fragment.getD "") with
  | error e => simp [setParam, paramsOf, hd, Except.toOption]
  | ok d =>
    have hm := keyed_insert (keyed_fragmentParams hd) ht
    rw [setParam_eq hd ht, Option.map_some', paramsOf_render url hm (entries_insert_ne_nil _ _ _),
      paramsOf, hd]
    rfl

/-! ## The legacy `+` delimiter -/

/-- A fragment with each `+` written as `-`. -/
def dashDelimited (f : String) : String := ⟨f.toList.map fun c => if c = '+' then '-' else c⟩

theorem no_dash_of_plus {f : String} (hf : checkFragmentDelimiter f = .ok '+') :
    '-' ∉ f.toList := by
  rcases (checkFragmentDelimiter_ok hf).2 with ⟨h, -⟩ | ⟨-, h⟩
  · exact absurd h (by decide)
  · exact h

/-- A legacy fragment written with `-` is accepted with `-`. -/
theorem checkFragmentDelimiter_dashDelimited {f : String}
    (hf : checkFragmentDelimiter f = .ok '+') :
    checkFragmentDelimiter (dashDelimited f) = .ok '-' := by
  refine checkFragmentDelimiter_dash fun c hc => ?_
  obtain ⟨x, hx, rfl⟩ := List.mem_map.1 hc
  by_cases hp : x = '+'
  · exact .inr (if_pos hp)
  rw [if_neg hp]
  have h45 : x.toNat ≠ 45 := fun h =>
    no_dash_of_plus hf ((char_eq_iff_toNat (d := '-')).2 h ▸ hx)
  have h43 : x.toNat ≠ 43 := fun h => hp ((char_eq_iff_toNat (d := '+')).2 h)
  have := (fragmentChar_iff x).1 ((checkFragmentDelimiter_ok hf).1 x hx)
  exact .inl (this.resolve_right (by omega))

/-- A legacy fragment splits on `-`, once written with `-`, into the pieces it splits into
on `+`. -/
theorem split_dashDelimited {f : String} (hf : checkFragmentDelimiter f = .ok '+') :
    split (dashDelimited f) '-' = split f '+' := by
  have hdash := no_dash_of_plus hf
  have hpieces : ∀ p ∈ (split f '+').map String.toList, ∀ x ∈ p,
      (if x = '+' then '-' else x) = x := by
    intro p hp x hx
    obtain ⟨q, hq, rfl⟩ := List.mem_map.1 hp
    rw [if_neg (mem_of_mem_split hq x hx).2]
  have hjoin : dashDelimited f = ⟨['-'].intercalate ((split f '+').map String.toList)⟩ := by
    have h := congrArg String.toList (intercalate_split f '+')
    apply String.ext
    show f.toList.map _ = _
    rw [← h]
    exact map_intercalate_singleton hpieces
  rw [hjoin, split_intercalate _ '-' (by simp [split, List.splitOn, List.splitOnP_ne_nil])
    fun v hv hm => hdash (mem_of_mem_split hv '-' hm).1]

/-- **The legacy `+` delimiter reads and writes as `-` does**: a fragment
`check_fragment_delimiter` accepts with `+` is accepted with `-` once its `+` are written as
`-`, `get_param` reads the same from both for every prefix, and `set_param` writes the same
URL from both. -/
theorem legacy_delimiter_equiv {f : String} (hf : checkFragmentDelimiter f = .ok '+')
    (url : Url) :
    checkFragmentDelimiter (dashDelimited f) = .ok '-' ∧
    (∀ pre, getParam { url with fragment := some f } pre =
      getParam { url with fragment := some (dashDelimited f) } pre) ∧
    ∀ t, setParam { url with fragment := some f } t =
      setParam { url with fragment := some (dashDelimited f) } t := by
  have hdash := checkFragmentDelimiter_dashDelimited hf
  have hsplit := split_dashDelimited hf
  refine ⟨hdash, fun pre => ?_, fun t => ?_⟩
  · rw [getParam_of_ok pre rfl hf, getParam_of_ok pre rfl hdash, hsplit]
  · rw [@setParam_of_ok { url with fragment := some f } '+' t hf,
      @setParam_of_ok { url with fragment := some (dashDelimited f) } '-' t hdash]
    simp only [Option.getD_some, fragmentParams, tokens, hsplit]
    rfl

theorem legacy_delimiter_equiv_backwards :
    checkFragmentDelimiter "EX1C4UC6ES+OH1Q" = .ok '+' ∧
    (checkFragmentDelimiter (dashDelimited "EX1C4UC6ES+OH1Q") = .ok '-' ∧
    (∀ pre, getParam (exampleComUrl "EX1C4UC6ES+OH1Q") pre =
      getParam (exampleComUrl (dashDelimited "EX1C4UC6ES+OH1Q")) pre) ∧
    ∀ t, setParam (exampleComUrl "EX1C4UC6ES+OH1Q") t =
      setParam (exampleComUrl (dashDelimited "EX1C4UC6ES+OH1Q")) t) :=
  ⟨rfl, legacy_delimiter_equiv (f := "EX1C4UC6ES+OH1Q") rfl (exampleComUrl "")⟩

/-! ## Tokens `set_param` does not check -/

theorem mem_intercalate_of_mem {s v : String} {vs : List String} {c : Char} (hv : v ∈ vs)
    (hc : c ∈ v.toList) : c ∈ (String.intercalate s vs).toList := by
  rw [intercalate_toList]
  cases vs with
  | nil => cases hv
  | cons a as =>
    rw [List.map_cons, intercalate_cons]
    rcases List.mem_cons.1 hv with rfl | hv
    · exact List.mem_append_left _ hc
    · refine List.mem_append_right _ (List.mem_flatten.2 ⟨s.toList ++ v.toList, ?_,
        List.mem_append_right _ hc⟩)
      exact List.mem_map.2 ⟨_, List.mem_map.2 ⟨v, hv, rfl⟩, rfl⟩

/-- `set_fragment` writes a character outside `0`-`9`, `A`-`Z`, `-`, `+`, other than a tab or
a line break, as itself or as a `%` escape: either way with a character outside. -/
theorem exists_encodeFragmentChar_rejected {c : Char} (hc : fragmentChar c = false)
    (hkeep : ¬(c = '\t' ∨ c = '\n' ∨ c = '\r')) :
    ∃ x ∈ encodeFragmentChar c, fragmentChar x = false := by
  have hne : String.utf8EncodeChar c ≠ [] := by simp [← List.length_pos, Char.utf8Size_pos]
  obtain ⟨b, bs, hbs⟩ := List.exists_cons_of_ne_nil hne
  have hlead : leadByte c = b := by simp [leadByte, hbs]
  unfold encodeFragmentChar
  rw [if_neg hkeep, hbs, List.flatMap_cons]
  by_cases he : fragmentEncodes b.toNat
  · exact ⟨'%', List.mem_append_left _ (by simp [he, percentEncodeByte]), by decide⟩
  · refine ⟨Char.ofNat b.toNat, List.mem_append_left _ (by simp [he]), ?_⟩
    by_cases ha : c.toNat ≤ 0x7F
    · rw [← hlead, leadByte_ascii ha]
      exact hc
    · have hb := hlead ▸ leadByte_ge ha
      exact absurd (by simp only [fragmentEncodes, Bool.or_eq_true, decide_eq_true_eq]; omega) he

theorem getParam_of_error {url : Url} {f : String} (hf : url.fragment = some f)
    {e : ParseFragmentError} (he : checkFragmentDelimiter f = .error e) (pre : String) :
    getParam url pre = .error e := by
  simp only [getParam, hf, he]
  rfl

theorem setParam_of_error {url : Url} {e : ParseFragmentError}
    (he : checkFragmentDelimiter (url.fragment.getD "") = .error e) (t : String) :
    setParam url t = none := by
  simp [setParam, he, Except.toOption]

/-- **`set_param` does not check its token.** A token with a character outside `0`-`9`,
`A`-`Z`, `-`, `+` (other than a tab or a line break, which `set_fragment` drops) leaves a
fragment that `check_fragment_delimiter` rejects: from then on `get_param` fails for every
prefix and `set_param` panics for every token. -/
theorem setParam_unchecked_token {url u : Url} {t : String} (hu : setParam url t = some u)
    {c : Char} (hc : c ∈ t.toList) (hbad : fragmentChar c = false)
    (hkeep : ¬(c = '\t' ∨ c = '\n' ∨ c = '\r')) :
    ∃ e, checkFragmentDelimiter (u.fragment.getD "") = .error e ∧
      (∀ pre, getParam u pre = .error e) ∧ ∀ t', setParam u t' = none := by
  cases hd : checkFragmentDelimiter (url.fragment.getD "") with
  | error e => simp [setParam_of_error hd] at hu
  | ok d =>
    rw [setParam_of_ok t hd, Option.some.injEq] at hu
    have ht : t ∈ ((fragmentParams (url.fragment.getD "") d).insert (paramKey t) t).values :=
      (BTreeMap.mem_values_iff _ _).2 ⟨_, by rw [BTreeMap.get?_insert, if_pos rfl]⟩
    obtain ⟨x, hx, hxbad⟩ := exists_encodeFragmentChar_rejected hbad hkeep
    have hxu : x ∈ (u.fragment.getD "").toList := by
      rw [← hu]
      exact List.mem_flatMap.2 ⟨c, mem_intercalate_of_mem ht hc, hx⟩
    cases hcheck : checkFragmentDelimiter (u.fragment.getD "") with
    | ok d' => exact absurd ((checkFragmentDelimiter_ok hcheck).1 x hxu) (by simp [hxbad])
    | error e =>
      have hf : u.fragment = some (u.fragment.getD "") := by rw [← hu]; rfl
      exact ⟨e, rfl, getParam_of_error hf hcheck, setParam_of_error hcheck⟩

theorem setParam_unchecked_token_lowercase :
    setParam (exampleComUrl "OH1Q") "rk1a" = some (exampleComUrl "OH1Q-rk1a") ∧
    'r' ∈ "rk1a".toList ∧ fragmentChar 'r' = false ∧ ¬('r' = '\t' ∨ 'r' = '\n' ∨ 'r' = '\r') ∧
    ∃ e, checkFragmentDelimiter ((exampleComUrl "OH1Q-rk1a").fragment.getD "") = .error e ∧
      (∀ pre, getParam (exampleComUrl "OH1Q-rk1a") pre = .error e) ∧
      ∀ t', setParam (exampleComUrl "OH1Q-rk1a") t' = none :=
  ⟨rfl, by decide, rfl, by decide,
    @setParam_unchecked_token (exampleComUrl "OH1Q") (exampleComUrl "OH1Q-rk1a") "rk1a" rfl 'r'
      (by decide) rfl (by decide)⟩

/-! ## The order of the tokens -/

theorem fragmentParams_eq_writeAll (f : String) (d : Char) :
    fragmentParams f d = writeAll BTreeMap.empty (tokens f d) := by
  rw [show BTreeMap.empty = BTreeMap.ofList (([] : List String).map fun p => (paramKey p, p))
    from rfl, writeAll_ofList]
  rfl

/-- **The order of the tokens does not matter**, as the comment of `get_param` says: two
fragments that `check_fragment_delimiter` accepts, holding the same tokens in any order and
no two under one key, read the same with `get_param` under every tag, and `set_param` of a
valid token writes the same URL from both. -/
theorem token_order_irrelevant (url : Url) {f f' : String} {d d' : Char}
    (hd : checkFragmentDelimiter f = .ok d) (hd' : checkFragmentDelimiter f' = .ok d')
    (hp : (tokens f' d').Perm (tokens f d)) (hkeys : ((tokens f d).map paramKey).Nodup) :
    (∀ k, '1' ∉ k.toList → getParam { url with fragment := some f' } (k ++ "1") =
      getParam { url with fragment := some f } (k ++ "1")) ∧
    ∀ t, ValidToken t →
      setParam { url with fragment := some f' } t = setParam { url with fragment := some f } t := by
  have hkeys' := (hp.map paramKey).nodup_iff.2 hkeys
  have hfp : fragmentParams f' d' = fragmentParams f d := by
    rw [fragmentParams_eq_writeAll, fragmentParams_eq_writeAll, writeAll_perm _ hp hkeys]
  refine ⟨fun k hk => ?_, fun t ht => ?_⟩
  · rw [@getParam_eq_get? { url with fragment := some f' } d' hd' k hk
        (filter_key_length_le_one hkeys' k),
      @getParam_eq_get? { url with fragment := some f } d hd k hk
        (filter_key_length_le_one hkeys k)]
    exact congrArg (fun m : BTreeMap => Except.ok ((m.get? k).filter (startsWith · (k ++ "1"))))
      hfp
  · rw [@setParam_eq { url with fragment := some f' } d' hd' t ht,
      @setParam_eq { url with fragment := some f } d hd t ht]
    exact congrArg (fun m : BTreeMap =>
      some { url with fragment := some (render (m.insert (paramKey t) t)) }) hfp

theorem token_order_irrelevant_legacy :
    checkFragmentDelimiter "EX1C-OH1Q" = .ok '-' ∧ checkFragmentDelimiter "OH1Q+EX1C" = .ok '+' ∧
    (tokens "OH1Q+EX1C" '+').Perm (tokens "EX1C-OH1Q" '-') ∧
    ((tokens "EX1C-OH1Q" '-').map paramKey).Nodup ∧
    ((∀ k, '1' ∉ k.toList → getParam (exampleComUrl "OH1Q+EX1C") (k ++ "1") =
        getParam (exampleComUrl "EX1C-OH1Q") (k ++ "1")) ∧
      ∀ t, ValidToken t →
        setParam (exampleComUrl "OH1Q+EX1C") t = setParam (exampleComUrl "EX1C-OH1Q") t) := by
  have hp : (tokens "OH1Q+EX1C" '+').Perm (tokens "EX1C-OH1Q" '-') := by decide
  have hk : ((tokens "EX1C-OH1Q" '-').map paramKey).Nodup := by decide
  exact ⟨rfl, rfl, hp, hk, token_order_irrelevant (exampleComUrl "") rfl rfl hp hk⟩

end PayjoinUri.FragmentStore
