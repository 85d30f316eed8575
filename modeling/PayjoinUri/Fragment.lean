import PayjoinUri.UrlCrate

/-! `url_ext.rs`, the fragment parameter store: `check_fragment_delimiter`
validates a fragment and picks its delimiter, `get_param` reads the first token
that starts with a prefix, and `set_param` rewrites the fragment through a
`BTreeMap` keyed by the text before each token's first `1`. -/

namespace PayjoinUri.Fragment

open Text UrlCrate

/-! ## `BTreeMap<&str, &str>` -/

/-- A `BTreeMap<&str, &str>`: its entries in ascending key order, no key twice. -/
structure BTreeMap where
  entries : List (String × String)
  sorted : entries.Pairwise (fun a b => strLt a.1 b.1)

namespace BTreeMap

/-- `BTreeMap::insert` on the entry list: a new key goes to its place, an
existing key gets the new value. -/
def insertEntries (k v : String) : List (String × String) → List (String × String)
  | [] => [(k, v)]
  | (k', v') :: rest =>
    if strLt k k' then (k, v) :: (k', v') :: rest
    else if k = k' then (k, v) :: rest
    else (k', v') :: insertEntries k v rest

theorem mem_insertEntries {k v : String} {l : List (String × String)} {a : String × String}
    (h : a ∈ insertEntries k v l) : a = (k, v) ∨ a ∈ l := by
  induction l with
  | nil => simpa [insertEntries] using h
  | cons e rest ih =>
    simp only [insertEntries] at h
    split_ifs at h
    · simpa using h
    · rcases List.mem_cons.mp h with h | h
      · exact .inl h
      · exact .inr (List.mem_cons_of_mem _ h)
    · rcases List.mem_cons.mp h with h | h
      · exact .inr (h ▸ List.mem_cons_self _ _)
      · exact (ih h).imp_right (List.mem_cons_of_mem _)

theorem insertEntries_sorted (k v : String) {l : List (String × String)}
    (h : l.Pairwise (fun a b => strLt a.1 b.1)) :
    (insertEntries k v l).Pairwise (fun a b => strLt a.1 b.1) := by
  induction l with
  | nil => simp [insertEntries]
  | cons e rest ih =>
    obtain ⟨hhd, htl⟩ := List.pairwise_cons.mp h
    simp only [insertEntries]
    split_ifs with h1 h2
    · exact List.Pairwise.cons (fun a ha => (List.mem_cons.mp ha).elim
        (fun e' => e' ▸ h1) (fun m => strLt_trans h1 (hhd a m))) h
    · subst h2; exact List.Pairwise.cons hhd htl
    · refine List.Pairwise.cons (fun a ha => ?_) (ih htl)
      rcases mem_insertEntries ha with rfl | m
      · exact (strLt_total (Ne.symm h2)).resolve_right h1
      · exact hhd a m

def empty : BTreeMap := ⟨[], .nil⟩

def insert (m : BTreeMap) (k v : String) : BTreeMap :=
  ⟨insertEntries k v m.entries, insertEntries_sorted k v m.sorted⟩

/-- `BTreeMap::values`, in key order. -/
def values (m : BTreeMap) : List String := m.entries.map Prod.snd

def isEmpty (m : BTreeMap) : Bool := m.entries.isEmpty

theorem isEmpty_insert (m : BTreeMap) (k v : String) : (m.insert k v).isEmpty = false := by
  simp only [isEmpty, insert]
  cases m.entries with
  | nil => rfl
  | cons e rest => simp only [insertEntries]; split_ifs <;> rfl

/-- `BTreeMap::get`. -/
def get? (m : BTreeMap) (k : String) : Option String := (m.entries.find? (·.1 == k)).map Prod.snd

/-- `collect::<BTreeMap<_, _>>()`: a later pair replaces an earlier one with the same key. -/
def ofList (l : List (String × String)) : BTreeMap := l.foldl (fun m p => m.insert p.1 p.2) empty

theorem ext {m₁ m₂ : BTreeMap} (h : m₁.entries = m₂.entries) : m₁ = m₂ := by
  cases m₁; cases m₂; cases h; rfl

/-! ### Lookup -/

theorem find?_insertEntries_self (k v : String) (l : List (String × String)) :
    (insertEntries k v l).find? (·.1 == k) = some (k, v) := by
  induction l with
  | nil => simp [insertEntries]
  | cons e rest ih =>
    simp only [insertEntries]
    split_ifs with h1 h2
    · simp
    · simp
    · simp [Ne.symm h2, ih]

theorem find?_insertEntries_ne {k k' : String} (v : String) (h : k ≠ k')
    (l : List (String × String)) :
    (insertEntries k v l).find? (·.1 == k') = l.find? (·.1 == k') := by
  induction l with
  | nil => simp [insertEntries, h]
  | cons e rest ih =>
    simp only [insertEntries]
    split_ifs with h1 h2
    · simp [h]
    · subst h2; simp [h]
    · simp [List.find?_cons, ih]

theorem get?_insert (m : BTreeMap) (k v k' : String) :
    (m.insert k v).get? k' = if k = k' then some v else m.get? k' := by
  split_ifs with h
  · subst h; simp [get?, insert, find?_insertEntries_self]
  · simp [get?, insert, find?_insertEntries_ne v h]

/-- After inserting a list of pairs, a key is bound to the last pair that has it. -/
theorem get?_foldl (l : List (String × String)) (m : BTreeMap) (k : String) :
    (l.foldl (fun m p => m.insert p.1 p.2) m).get? k =
      ((l.filter (·.1 == k)).getLast?.map Prod.snd).or (m.get? k) := by
  induction l generalizing m with
  | nil => simp
  | cons p l ih =>
    rw [List.foldl_cons, ih, get?_insert]
    by_cases hp : p.1 = k
    · simp only [hp, ↓reduceIte, List.filter_cons, beq_self_eq_true, List.getLast?_cons]
      cases (l.filter (·.1 == k)).getLast? <;> rfl
    · simp [hp, List.filter_cons]

theorem get?_ofList (l : List (String × String)) (k : String) :
    (ofList l).get? k = (l.filter (·.1 == k)).getLast?.map Prod.snd := by
  simpa [ofList, get?, empty] using get?_foldl l empty k

/-! ### Entries in key order -/

theorem insertEntries_of_lt {k v : String} {l : List (String × String)}
    (h : ∀ e ∈ l, strLt e.1 k) : insertEntries k v l = l ++ [(k, v)] := by
  induction l with
  | nil => rfl
  | cons e rest ih =>
    have he := h e (List.mem_cons_self _ _)
    have hne : k ≠ e.1 := fun h' => by simp [h', strLt_irrefl] at he
    simp only [insertEntries, strLt_asymm he, hne, ↓reduceIte, Bool.false_eq_true,
      ih fun a ha => h a (List.mem_cons_of_mem _ ha), List.cons_append]

theorem foldl_entries_of_sorted (l : List (String × String)) (m : BTreeMap)
    (h : (m.entries ++ l).Pairwise (fun a b => strLt a.1 b.1)) :
    (l.foldl (fun m p => m.insert p.1 p.2) m).entries = m.entries ++ l := by
  induction l generalizing m with
  | nil => simp
  | cons p l ih =>
    have hlt : ∀ e ∈ m.entries, strLt e.1 p.1 :=
      fun e he => (List.pairwise_append.mp h).2.2 e he p (List.mem_cons_self _ _)
    have hins : (m.insert p.1 p.2).entries = m.entries ++ [p] := insertEntries_of_lt hlt
    rw [List.foldl_cons, ih _ (by simpa [hins] using h), hins, List.append_assoc]
    rfl

theorem ofList_of_sorted {l : List (String × String)}
    (h : l.Pairwise (fun a b => strLt a.1 b.1)) : (ofList l).entries = l := by
  simpa [ofList, empty] using foldl_entries_of_sorted l empty (by simpa [empty] using h)

theorem find?_key {l : List (String × String)} {k : String} {e : String × String}
    (h : l.find? (·.1 == k) = some e) : e.1 = k := by
  simpa using List.find?_some h

theorem find?_of_mem {l : List (String × String)} (hl : l.Pairwise (fun a b => strLt a.1 b.1))
    {e : String × String} (he : e ∈ l) : l.find? (·.1 == e.1) = some e := by
  induction l with
  | nil => cases he
  | cons a rest ih =>
    rcases List.mem_cons.mp he with rfl | he
    · simp
    · have hlt := List.rel_of_pairwise_cons hl he
      have hne : a.1 ≠ e.1 := fun h' => by simp [h', strLt_irrefl] at hlt
      simp [hne, ih (List.pairwise_cons.mp hl).2 he]

theorem mem_entries_iff (m : BTreeMap) (k v : String) :
    (k, v) ∈ m.entries ↔ m.get? k = some v := by
  constructor
  · intro h; simp [get?, find?_of_mem m.sorted h]
  · intro h
    obtain ⟨e, he, rfl⟩ := Option.map_eq_some'.mp h
    rw [← find?_key he]
    exact List.mem_of_find?_eq_some he

theorem mem_values_iff (m : BTreeMap) (v : String) :
    v ∈ m.values ↔ ∃ k, m.get? k = some v := by
  simp [values, ← mem_entries_iff]

theorem find?_none_of_head {a : String × String} {rest : List (String × String)}
    (h : (a :: rest).Pairwise (fun a b => strLt a.1 b.1)) : rest.find? (·.1 == a.1) = none := by
  refine List.find?_eq_none.2 fun e he hk => ?_
  have hlt := List.rel_of_pairwise_cons h he
  simp only [beq_iff_eq] at hk
  simp [hk, strLt_irrefl] at hlt

/-- Sorted entry lists with the same lookups are equal. -/
theorem entries_eq_of_find? {l₁ l₂ : List (String × String)}
    (h₁ : l₁.Pairwise (fun a b => strLt a.1 b.1)) (h₂ : l₂.Pairwise (fun a b => strLt a.1 b.1))
    (h : ∀ k, l₁.find? (·.1 == k) = l₂.find? (·.1 == k)) : l₁ = l₂ := by
  induction l₁ generalizing l₂ with
  | nil =>
    cases l₂ with
    | nil => rfl
    | cons b _ => simpa using h b.1
  | cons a r₁ ih =>
    cases l₂ with
    | nil => simpa using h a.1
    | cons b r₂ =>
      have hab : a = b := by
        have ha := (h a.1).symm.trans (find?_of_mem h₁ (List.mem_cons_self _ _))
        have hb := (h b.1).trans (find?_of_mem h₂ (List.mem_cons_self _ _))
        have ha' := List.mem_of_find?_eq_some ha
        have hb' := List.mem_of_find?_eq_some hb
        rcases List.mem_cons.mp ha' with rfl | ha'
        · rfl
        rcases List.mem_cons.mp hb' with rfl | hb'
        · rfl
        exact absurd (strLt_trans (List.rel_of_pairwise_cons h₁ hb')
          (List.rel_of_pairwise_cons h₂ ha')) (by simp [strLt_irrefl])
      subst hab
      congr 1
      refine ih (List.pairwise_cons.mp h₁).2 (List.pairwise_cons.mp h₂).2 fun k => ?_
      by_cases hk : a.1 = k
      · subst hk; rw [find?_none_of_head h₁, find?_none_of_head h₂]
      · simpa [hk] using h k

theorem eq_of_get? {m₁ m₂ : BTreeMap} (h : ∀ k, m₁.get? k = m₂.get? k) : m₁ = m₂ := by
  refine ext (entries_eq_of_find? m₁.sorted m₂.sorted fun k => ?_)
  have hk := h k
  simp only [get?] at hk
  cases h₁ : m₁.entries.find? (·.1 == k) <;> cases h₂ : m₂.entries.find? (·.1 == k) <;>
    simp_all
  rename_i e₁ e₂
  exact Prod.ext ((find?_key h₁).trans (find?_key h₂).symm) hk

theorem insert_insert (m : BTreeMap) (k v v' : String) :
    (m.insert k v).insert k v' = m.insert k v' :=
  eq_of_get? fun k' => by simp only [get?_insert]; split_ifs <;> rfl

theorem insert_insert_self (m : BTreeMap) (k v : String) :
    (m.insert k v).insert k v = m.insert k v :=
  insert_insert m k v v

theorem insert_of_get? {m : BTreeMap} {k v : String} (h : m.get? k = some v) :
    m.insert k v = m :=
  eq_of_get? fun k' => by
    rw [get?_insert]
    split_ifs with hk
    · rw [← hk, h]
    · rfl

theorem insert_comm (m : BTreeMap) {k₁ k₂ : String} (h : k₁ ≠ k₂) (v₁ v₂ : String) :
    (m.insert k₁ v₁).insert k₂ v₂ = (m.insert k₂ v₂).insert k₁ v₁ :=
  eq_of_get? fun k' => by simp only [get?_insert]; split_ifs <;> simp_all

end BTreeMap

/-! ## The code -/

inductive ParseFragmentError where
  | invalidChar (c : Char)
  | ambiguousDelimiter
  deriving DecidableEq, Repr

/-- The bytes `check_fragment_delimiter` accepts: `0`-`9`, `A`-`Z`, `-` and `+`. -/
def allowedByte (b : UInt8) : Bool :=
  (0x30 ≤ b.toNat && b.toNat < 0x3A) || (0x41 ≤ b.toNat && b.toNat < 0x5B) ||
    b.toNat == 0x2D || b.toNat == 0x2B

/-- `str::bytes`: the UTF-8 encoding of a string. -/
def utf8Bytes (s : String) : List UInt8 := s.toList.flatMap String.utf8EncodeChar

def checkFragmentDelimiter (fragment : String) : Except ParseFragmentError Char :=
  let hasDash := contains fragment '-'
  let hasPlus := contains fragment '+'
  match (utf8Bytes fragment).find? (fun b => !allowedByte b) with
  | some b => .error (.invalidChar (Char.ofNat b.toNat))
  | none =>
    match hasDash, hasPlus with
    | true, true => .error .ambiguousDelimiter
    | false, true => .ok '+'
    | _, _ => .ok '-'

def getParam (url : Url) (pre : String) : Except ParseFragmentError (Option String) :=
  match url.fragment with
  | none => .ok none
  | some fragment => do
    let delim ← checkFragmentDelimiter fragment
    return (split fragment delim).find? (startsWith · pre)

/-- The key `set_param` files a parameter under: `param.split('1').next().unwrap_or(param)`. -/
def paramKey (p : String) : String := ((split p '1').head?).getD p

/-- The pieces of a fragment `set_param` keeps: split on the delimiter, empty ones dropped. -/
def tokens (fragment : String) (delim : Char) : List String :=
  (split fragment delim).filter fun p => !p.isEmpty

/-- The map `set_param` collects from a fragment: each token under its `paramKey`. -/
def fragmentParams (fragment : String) (delim : Char) : BTreeMap :=
  BTreeMap.ofList ((tokens fragment delim).map fun p => (paramKey p, p))

/-- `set_param`, `none` where it panics at its `expect`. -/
def setParam (url : Url) (newParam : String) : Option Url := do
  let fragment := url.fragment.getD ""
  let delim ← (checkFragmentDelimiter fragment).toOption
  let params := (fragmentParams fragment delim).insert (paramKey newParam) newParam
  if params.isEmpty then some (url.setFragment none)
  else some (url.setFragment (some (String.intercalate "-" params.values)))

/-! ## What each function computes -/

/-- The characters `check_fragment_delimiter` accepts. -/
def fragmentChar (c : Char) : Bool := c.isDigit || c.isUpper || c == '-' || c == '+'

/-- The characters of a token the typed setters write: `0`-`9` and `A`-`Z`. -/
def tokenChar (c : Char) : Bool := c.isDigit || c.isUpper

theorem char_eq_iff_toNat {c d : Char} : c = d ↔ c.toNat = d.toNat :=
  ⟨congrArg _, fun h => by rw [← Char.ofNat_toNat c, h, Char.ofNat_toNat]⟩

theorem tokenChar_iff (c : Char) :
    tokenChar c ↔ (48 ≤ c.toNat ∧ c.toNat ≤ 57) ∨ (65 ≤ c.toNat ∧ c.toNat ≤ 90) := by
  simp [tokenChar, Char.isDigit, Char.isUpper, val_le_iff, UInt32.le_def, BitVec.le_def,
    Char.toNat]
  exact Iff.rfl

theorem fragmentChar_iff (c : Char) :
    fragmentChar c ↔ tokenChar c ∨ c.toNat = 45 ∨ c.toNat = 43 := by
  have h1 : '-'.toNat = 45 := rfl
  have h2 : '+'.toNat = 43 := rfl
  simp only [fragmentChar, tokenChar, Bool.or_eq_true, beq_iff_eq, char_eq_iff_toNat, h1, h2,
    or_assoc]

theorem not_allowedByte_lor (x : UInt8) : allowedByte (x ||| 0x80) = false := by
  have h : 0x80 ≤ (x ||| 0x80).toNat := by
    show 0x80 ≤ (x.toBitVec ||| 0x80#8).toNat
    rw [BitVec.toNat_or]
    exact Nat.le_of_testBit fun i h => by simp [h]
  simp only [allowedByte, Bool.or_eq_false_iff, Bool.and_eq_false_imp, decide_eq_true_eq,
    decide_eq_false_iff_not, beq_eq_false_iff_ne]
  omega

/-- A character passes the byte test of `check_fragment_delimiter` exactly when
it is one of `0`-`9`, `A`-`Z`, `-`, `+`. -/
theorem allowedByte_utf8EncodeChar (c : Char) :
    (∀ b ∈ String.utf8EncodeChar c, allowedByte b) ↔ fragmentChar c := by
  by_cases hc : c.toNat ≤ 0x7F
  · simp only [utf8EncodeChar_ascii hc, List.mem_singleton, forall_eq, allowedByte,
      toUInt8_toNat_ascii hc, fragmentChar_iff, tokenChar_iff, Bool.or_eq_true, Bool.and_eq_true,
      decide_eq_true_eq, beq_iff_eq]
    omega
  · have hv : ¬c.val ≤ 0x7f := fun h => hc ((val_le_iff c 0x7f).1 h)
    have hf : ¬fragmentChar c := by rw [fragmentChar_iff, tokenChar_iff]; omega
    refine iff_of_false (fun h => ?_) hf
    have hmem : c.val.toUInt8 &&& 0x3f ||| 0x80 ∈ String.utf8EncodeChar c := by
      simp only [String.utf8EncodeChar, hv, ↓reduceIte]
      split_ifs <;> simp
    simpa [not_allowedByte_lor] using h _ hmem

theorem find?_utf8Bytes_eq_none (f : String) :
    (utf8Bytes f).find? (fun b => !allowedByte b) = none ↔ ∀ c ∈ f.toList, fragmentChar c := by
  simp only [List.find?_eq_none, utf8Bytes, List.mem_flatMap, Bool.not_eq_true', Bool.not_eq_false,
    forall_exists_index, and_imp, ← allowedByte_utf8EncodeChar]
  exact ⟨fun h c hc b hb => h b c hc hb, fun h b c hc hb => h c hc b hb⟩

/-- What an accepted fragment is: only `0`-`9`, `A`-`Z`, `-`, `+`, and the
delimiter is the one of `-` and `+` it has (`-` when it has neither). -/
theorem checkFragmentDelimiter_ok {f : String} {d : Char} (h : checkFragmentDelimiter f = .ok d) :
    (∀ c ∈ f.toList, fragmentChar c) ∧ (d = '-' ∧ '+' ∉ f.toList ∨ d = '+' ∧ '-' ∉ f.toList) := by
  unfold checkFragmentDelimiter at h
  split at h
  · cases h
  · rename_i hfind
    refine ⟨(find?_utf8Bytes_eq_none f).1 hfind, ?_⟩
    simp only [contains, List.contains, List.elem_eq_mem] at h
    split at h
    · cases h
    · cases h; simp_all
    · cases h; by_cases hm : '-' ∈ f.toList <;> simp_all

/-! ## The byte loop read over characters -/

/-- The first byte of a character's UTF-8 encoding. -/
def leadByte (c : Char) : UInt8 := (String.utf8EncodeChar c).headD 0

/-- The character `InvalidChar` names for a rejected character `c`: `c` itself when it is
ASCII, as the comment of `check_fragment_delimiter` expects, and otherwise the first byte of
its encoding read as a character, as `c.into()` reads a byte. -/
def invalidCharName (c : Char) : Char :=
  if c.toNat ≤ 0x7F then c else Char.ofNat (leadByte c).toNat

/-- `check_fragment_delimiter` stated over characters: the first character outside `0`-`9`,
`A`-`Z`, `-`, `+` is rejected, then the delimiters decide. -/
def checkFragmentChars (fragment : String) : Except ParseFragmentError Char :=
  match fragment.toList.find? (fun c => !fragmentChar c) with
  | some c => .error (.invalidChar (invalidCharName c))
  | none =>
    match contains fragment '-', contains fragment '+' with
    | true, true => .error .ambiguousDelimiter
    | false, true => .ok '+'
    | _, _ => .ok '-'

example : checkFragmentChars "OH1Q\u00e9" = .error (.invalidChar (Char.ofNat 0xC3)) := rfl

theorem le_toNat_lor (x y : UInt8) : y.toNat ≤ (x ||| y).toNat := by
  show y.toNat ≤ (x.toBitVec ||| y.toBitVec).toNat
  rw [BitVec.toNat_or]
  exact Nat.le_of_testBit fun i h => by
    rw [Nat.testBit_or, Bool.or_eq_true]
    exact .inr h

theorem not_allowedByte_of_le {b : UInt8} (h : 0x80 ≤ b.toNat) : allowedByte b = false := by
  simp only [allowedByte, Bool.or_eq_false_iff, Bool.and_eq_false_imp, decide_eq_true_eq,
    decide_eq_false_iff_not, beq_eq_false_iff_ne]
  omega

/-- A character above ASCII starts with a byte of at least `0x80`. -/
theorem leadByte_ge {c : Char} (ha : ¬c.toNat ≤ 0x7F) : 0x80 ≤ (leadByte c).toNat := by
  have hv : ¬c.val ≤ 0x7f := fun h => ha ((val_le_iff c 0x7f).1 h)
  unfold leadByte String.utf8EncodeChar
  simp only [hv, ↓reduceIte]
  split_ifs <;> exact Nat.le_trans (by decide) (le_toNat_lor _ _)

/-- The first byte of a rejected character is itself rejected. -/
theorem allowedByte_leadByte {c : Char} (hc : fragmentChar c = false) :
    allowedByte (leadByte c) = false := by
  by_cases ha : c.toNat ≤ 0x7F
  · have h := mt (allowedByte_utf8EncodeChar c).1 (by simp [hc])
    simpa [leadByte, utf8EncodeChar_ascii ha] using h
  · exact not_allowedByte_of_le (leadByte_ge ha)

theorem leadByte_ascii {c : Char} (h : c.toNat ≤ 0x7F) : Char.ofNat (leadByte c).toNat = c := by
  rw [leadByte, utf8EncodeChar_ascii h, List.headD_cons, toUInt8_toNat_ascii h, Char.ofNat_toNat]

/-- The first rejected byte is the first byte of the first rejected character. -/
theorem find?_flatMap_utf8EncodeChar (l : List Char) :
    (l.flatMap String.utf8EncodeChar).find? (fun b => !allowedByte b) =
      (l.find? (fun c => !fragmentChar c)).map leadByte := by
  induction l with
  | nil => rfl
  | cons c l ih =>
    rw [List.flatMap_cons, List.find?_append, ih]
    cases hc : fragmentChar c
    · have hne : String.utf8EncodeChar c ≠ [] := by simp [← List.length_pos, Char.utf8Size_pos]
      obtain ⟨b, bs, hbs⟩ := List.exists_cons_of_ne_nil hne
      have hb : allowedByte b = false := by
        simpa [leadByte, hbs] using allowedByte_leadByte hc
      simp [hbs, hb, hc, leadByte]
    · have hall := (allowedByte_utf8EncodeChar c).2 hc
      rw [List.find?_eq_none.2 (by simpa using hall)]
      simp [hc]

/-- **The byte loop of `check_fragment_delimiter` is the check over characters its comment
describes**: it rejects exactly the fragments with a character outside `0`-`9`, `A`-`Z`, `-`,
`+`, at the first such character, which `InvalidChar` names when it is ASCII; for any other
character it names the first byte of its encoding. -/
theorem checkFragmentDelimiter_eq_chars (f : String) :
    checkFragmentDelimiter f = checkFragmentChars f := by
  unfold checkFragmentDelimiter checkFragmentChars
  rw [utf8Bytes, find?_flatMap_utf8EncodeChar]
  cases f.toList.find? (fun c => !fragmentChar c) with
  | none => rfl
  | some c =>
    simp only [Option.map_some']
    unfold invalidCharName
    split_ifs with h
    · rw [leadByte_ascii h]
    · rfl

theorem checkFragmentDelimiter_dash {f : String} (h : ∀ c ∈ f.toList, tokenChar c ∨ c = '-') :
    checkFragmentDelimiter f = .ok '-' := by
  have hf : ∀ c ∈ f.toList, fragmentChar c := fun c hc => by
    rcases h c hc with h | rfl <;> simp_all [fragmentChar, tokenChar]
  have hp : '+' ∉ f.toList := fun hp => by
    rcases h _ hp with h | h
    · simp [tokenChar, Char.isDigit, Char.isUpper] at h
    · cases h
  unfold checkFragmentDelimiter
  rw [(find?_utf8Bytes_eq_none f).2 hf]
  simp only [contains, List.contains, List.elem_eq_mem]
  split <;> simp_all

theorem getParam_of_ok {url : Url} {f : String} {d : Char} (pre : String)
    (hf : url.fragment = some f) (hd : checkFragmentDelimiter f = .ok d) :
    getParam url pre = .ok ((split f d).find? (startsWith · pre)) := by
  simp [getParam, hf, hd]

theorem paramKey_eq (p : String) : paramKey p = ⟨p.toList.takeWhile (· != '1')⟩ := by
  simp [paramKey, split_head?]
  rfl

theorem setParam_of_ok {url : Url} {d : Char} (t : String)
    (hd : checkFragmentDelimiter (url.fragment.getD "") = .ok d) :
    setParam url t = some (url.setFragment (some (String.intercalate "-"
      ((fragmentParams (url.fragment.getD "") d).insert (paramKey t) t).values))) := by
  simp only [setParam, hd, Except.toOption, Option.bind_eq_bind, Option.some_bind]
  rw [BTreeMap.isEmpty_insert]
  rfl

end PayjoinUri.Fragment
