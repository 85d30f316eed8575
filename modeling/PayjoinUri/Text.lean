import Mathlib.Data.String.Basic

/-! The Rust `str` and `char` operations that the URI code calls, over Lean
strings. A `&str` is a `String`; `split`, `starts_with`, `ends_with`,
`contains` and `replacen(.., 1)` are written over its list of characters, so
that what is proved about them is proved about lists. -/

namespace PayjoinUri.Text

/-- `str::split(c)`: the pieces between the occurrences of `c`, empty ones included. -/
def split (s : String) (c : Char) : List String := (s.toList.splitOn c).map String.mk

/-- `str::starts_with`. -/
def startsWith (s pre : String) : Bool := pre.toList.isPrefixOf s.toList

/-- `str::ends_with`. -/
def endsWith (s suf : String) : Bool := suf.toList.isSuffixOf s.toList

/-- `str::contains` with a `char` pattern. -/
def contains (s : String) (c : Char) : Bool := s.toList.contains c

/-- `str::replacen(pat, to, 1)` on characters: the leftmost match of `pat` is
replaced (an empty `pat` matches at the start). -/
def replaceFirst (pat rep : List Char) : List Char → List Char
  | [] => if pat.isPrefixOf [] then rep else []
  | c :: cs =>
    if pat.isPrefixOf (c :: cs) then rep ++ (c :: cs).drop pat.length
    else c :: replaceFirst pat rep cs

/-- `s.replacen(pat, rep, 1)`. -/
def replacen (s pat rep : String) : String := ⟨replaceFirst pat.toList rep.toList s.toList⟩

/-- `str::to_uppercase` on ASCII text: `Char.toUpper` maps `a`-`z` only, which is
all `to_uppercase` changes in the ASCII schemes and hosts it is applied to. -/
def toUppercase (s : String) : String := ⟨s.toList.map Char.toUpper⟩

/-- ASCII lower case, as `Url::parse` writes schemes and domains. -/
def toLowercase (s : String) : String := ⟨s.toList.map Char.toLower⟩

/-- `char::is_lowercase`: `a` to `z`, or a code point above U+007F that the
Unicode `Lowercase` table `lowercase` lists. -/
def isLowercase (lowercase : Char → Bool) (c : Char) : Bool :=
  ('a' ≤ c && c ≤ 'z') || (decide (0x7f < c.val) && lowercase c)

/-- `Ord for str` as a test `a < b`: lexicographic on characters, which on UTF-8
text is the order of the bytes. -/
def ltChars : List Char → List Char → Bool
  | [], [] => false
  | [], _ :: _ => true
  | _ :: _, [] => false
  | a :: as, b :: bs => a.toNat < b.toNat || (a = b && ltChars as bs)

/-- `a < b` on `&str`. -/
def strLt (a b : String) : Bool := ltChars a.toList b.toList

theorem isEmpty_eq_false_iff (s : String) : s.isEmpty = false ↔ s.toList ≠ [] := by
  rw [Bool.eq_false_iff, ne_eq, ne_eq, String.isEmpty_iff, not_iff_not]
  exact ⟨fun h => h ▸ rfl, String.ext⟩

/-! ## The order on strings -/

theorem ltChars_irrefl (l : List Char) : ltChars l l = false := by
  induction l with
  | nil => rfl
  | cons a as ih => simp [ltChars, ih]

theorem ltChars_trans {l₁ l₂ l₃ : List Char} (h₁ : ltChars l₁ l₂) (h₂ : ltChars l₂ l₃) :
    ltChars l₁ l₃ := by
  induction l₁ generalizing l₂ l₃ with
  | nil => cases l₂ <;> cases l₃ <;> simp_all [ltChars]
  | cons a as ih =>
    cases l₂ with
    | nil => simp [ltChars] at h₁
    | cons b bs =>
      cases l₃ with
      | nil => simp [ltChars] at h₂
      | cons c cs =>
        simp only [ltChars, Bool.or_eq_true, decide_eq_true_eq, Bool.and_eq_true] at *
        rcases h₁ with h₁ | ⟨rfl, h₁⟩ <;> rcases h₂ with h₂ | ⟨rfl, h₂⟩
        · exact .inl (by omega)
        · exact .inl h₁
        · exact .inl h₂
        · exact .inr ⟨rfl, ih h₁ h₂⟩

theorem ltChars_total {l₁ l₂ : List Char} (h : l₁ ≠ l₂) : ltChars l₁ l₂ ∨ ltChars l₂ l₁ := by
  induction l₁ generalizing l₂ with
  | nil => cases l₂ <;> simp_all [ltChars]
  | cons a as ih =>
    cases l₂ with
    | nil => simp [ltChars]
    | cons b bs =>
      simp only [ltChars, Bool.or_eq_true, decide_eq_true_eq, Bool.and_eq_true]
      by_cases hab : a = b
      · subst hab
        rcases ih (fun e => h (e ▸ rfl)) with h' | h' <;> simp [h']
      · have : a.toNat ≠ b.toNat := fun e => hab (by rw [← Char.ofNat_toNat a, e, Char.ofNat_toNat])
        omega

theorem strLt_irrefl (a : String) : strLt a a = false := ltChars_irrefl _

theorem strLt_trans {a b c : String} (h₁ : strLt a b) (h₂ : strLt b c) : strLt a c :=
  ltChars_trans h₁ h₂

theorem strLt_total {a b : String} (h : a ≠ b) : strLt a b ∨ strLt b a :=
  ltChars_total fun e => h (String.ext e)

theorem strLt_asymm {a b : String} (h : strLt a b) : strLt b a = false := by
  cases h' : strLt b a
  · rfl
  · simpa [strLt_irrefl] using strLt_trans h h'

/-! ## Splitting -/

theorem map_toList_split (s : String) (c : Char) :
    (split s c).map String.toList = s.toList.splitOn c := by
  simp only [split, List.map_map]
  exact List.map_id'' (fun _ => rfl) _

theorem split_intercalate (vs : List String) (c : Char) (hne : vs ≠ [])
    (hc : ∀ v ∈ vs, c ∉ v.toList) :
    split ⟨[c].intercalate (vs.map String.toList)⟩ c = vs := by
  have h := List.splitOn_intercalate (vs.map String.toList) c (by simpa using hc)
    (by simpa using hne)
  simp only [split, String.toList, h, List.map_map]
  exact List.map_id'' (fun _ => rfl) vs

theorem intercalate_split (s : String) (c : Char) :
    String.mk ([c].intercalate ((split s c).map String.toList)) = s := by
  rw [map_toList_split, List.intercalate_splitOn]
  rfl

theorem mem_of_mem_splitOnP {p : Char → Bool} {l piece : List Char} (h : piece ∈ l.splitOnP p) :
    ∀ c ∈ piece, c ∈ l ∧ p c = false := by
  induction l generalizing piece with
  | nil => simp_all
  | cons x xs ih =>
    rw [List.splitOnP_cons] at h
    split at h
    · rcases List.mem_cons.mp h with rfl | h
      · simp
      · exact fun c hc => (ih h c hc).imp_left (List.mem_cons_of_mem _)
    · rename_i hx
      cases hs : xs.splitOnP p with
      | nil => exact absurd hs (List.splitOnP_ne_nil _ _)
      | cons q qs =>
        rw [hs, List.modifyHead_cons] at h
        rcases List.mem_cons.mp h with rfl | h
        · intro c hc
          rcases List.mem_cons.mp hc with rfl | hc
          · simpa using hx
          · exact (ih (hs ▸ List.mem_cons_self _ _) c hc).imp_left (List.mem_cons_of_mem _)
        · exact fun c hc => (ih (hs ▸ List.mem_cons_of_mem _ h) c hc).imp_left
            (List.mem_cons_of_mem _)

/-- A piece of `split s c` is made of characters of `s` other than `c`. -/
theorem mem_of_mem_split {s piece : String} {c : Char} (h : piece ∈ split s c) :
    ∀ x ∈ piece.toList, x ∈ s.toList ∧ x ≠ c := by
  obtain ⟨l, hl, rfl⟩ := List.mem_map.mp h
  intro x hx
  have := mem_of_mem_splitOnP hl x hx
  simpa using this

theorem splitOnP_head? (p : Char → Bool) (l : List Char) :
    (l.splitOnP p).head? = some (l.takeWhile (! p ·)) := by
  induction l with
  | nil => rfl
  | cons x xs ih =>
    rw [List.splitOnP_cons]
    by_cases hx : p x
    · simp [hx]
    · cases h : xs.splitOnP p with
      | nil => exact absurd h (List.splitOnP_ne_nil _ _)
      | cons q qs => simp_all

theorem split_head? (s : String) (c : Char) :
    (split s c).head? = some ⟨s.toList.takeWhile (! · == c)⟩ := by
  simp [split, List.splitOn, splitOnP_head?]

theorem intercalate_cons (sep a : List Char) (as : List (List Char)) :
    sep.intercalate (a :: as) = a ++ (as.map (sep ++ ·)).flatten := by
  induction as generalizing a with
  | nil => simp [List.intercalate]
  | cons b bs ih =>
    have h := ih b
    simp only [List.intercalate, List.intersperse_cons₂, List.flatten_cons] at h ⊢
    simp [h]

theorem intercalate_go_toList (acc s : String) (vs : List String) :
    (String.intercalate.go acc s vs).toList =
      acc.toList ++ (vs.map fun v => s.toList ++ v.toList).flatten := by
  induction vs generalizing acc with
  | nil => simp [String.intercalate.go]
  | cons v vs ih =>
    rw [String.intercalate.go, ih]
    simp [String.toList]

/-- `[&str]::join`, as a list of characters. -/
theorem intercalate_toList (s : String) (vs : List String) :
    (String.intercalate s vs).toList = s.toList.intercalate (vs.map String.toList) := by
  cases vs with
  | nil => rfl
  | cons v vs =>
    rw [String.intercalate, intercalate_go_toList, List.map_cons, intercalate_cons, List.map_map]
    rfl

theorem split_intercalate' (vs : List String) (c : Char) (hne : vs ≠ [])
    (hc : ∀ v ∈ vs, c ∉ v.toList) :
    split (String.intercalate (String.singleton c) vs) c = vs := by
  have : String.intercalate (String.singleton c) vs = ⟨[c].intercalate (vs.map String.toList)⟩ :=
    String.ext (intercalate_toList _ _)
  rw [this, split_intercalate vs c hne hc]

/-- Mapping a joined text maps its separator alone, when the pieces are left as they are. -/
theorem map_intercalate_singleton {g : Char → Char} {c : Char} {ps : List (List Char)}
    (h : ∀ p ∈ ps, ∀ x ∈ p, g x = x) : ([c].intercalate ps).map g = [g c].intercalate ps := by
  have hid : ∀ p ∈ ps, p.map g = p := fun p hp =>
    (List.map_congr_left (h p hp)).trans (List.map_id' p)
  cases ps with
  | nil => rfl
  | cons a as =>
    rw [intercalate_cons, intercalate_cons, List.map_append, List.map_flatten, List.map_map,
      hid a (List.mem_cons_self _ _)]
    congr 2
    refine List.map_congr_left fun p hp => ?_
    simp only [Function.comp, List.map_append, List.map_cons, List.map_nil,
      hid p (List.mem_cons_of_mem _ hp), List.singleton_append]

theorem mem_intercalate {s : String} {vs : List String} {c : Char}
    (h : c ∈ (String.intercalate s vs).toList) : c ∈ s.toList ∨ ∃ v ∈ vs, c ∈ v.toList := by
  rw [intercalate_toList] at h
  cases vs with
  | nil => cases h
  | cons v vs =>
    rw [List.map_cons, intercalate_cons] at h
    simp only [List.mem_append, List.mem_flatten, List.mem_map] at h
    rcases h with h | ⟨_, ⟨w, hw, rfl⟩, h⟩
    · exact .inr ⟨v, List.mem_cons_self _ _, h⟩
    · rcases List.mem_append.mp h with h | h
      · exact .inl h
      · obtain ⟨w', hw', rfl⟩ := hw
        exact .inr ⟨w', List.mem_cons_of_mem _ hw', h⟩

/-! ## Replacing the first match -/

@[simp] theorem replaceFirst_prefix (pat rep ys : List Char) :
    replaceFirst pat rep (pat ++ ys) = rep ++ ys := by
  cases h : pat ++ ys with
  | nil => simp_all [replaceFirst]
  | cons c cs => simp [replaceFirst, ← h]

/-- When `pat` first occurs right after `xs`, `replaceFirst` replaces that occurrence. -/
theorem replaceFirst_append (pat rep xs ys : List Char)
    (h : ∀ i < xs.length, pat.isPrefixOf ((xs ++ pat ++ ys).drop i) = false) :
    replaceFirst pat rep (xs ++ pat ++ ys) = xs ++ rep ++ ys := by
  induction xs with
  | nil => simp
  | cons x xs ih =>
    have h0 : pat.isPrefixOf (x :: (xs ++ pat ++ ys)) = false := h 0 (by simp)
    show replaceFirst pat rep (x :: (xs ++ pat ++ ys)) = x :: (xs ++ rep ++ ys)
    rw [replaceFirst, h0, if_neg Bool.false_ne_true,
      ih fun i hi => by simpa using h (i + 1) (by simpa using hi)]

/-! ## ASCII case -/

theorem val_le_iff (c : Char) (n : UInt32) : c.val ≤ n ↔ c.toNat ≤ n.toNat := by
  simp [UInt32.le_def, BitVec.le_def, Char.toNat]
  rfl

/-- Characters below `a` are not lower case, whatever the table says above U+007F. -/
theorem isLowercase_of_lt (lowercase : Char → Bool) {c : Char} (h : c.toNat < 97) :
    isLowercase lowercase c = false := by
  have h1 : ¬('a' ≤ c) := fun h' => by
    have : 'a'.toNat ≤ c.toNat := (UInt32.le_def.trans BitVec.le_def).1 h'
    exact absurd this (by show ¬(97 ≤ c.toNat); omega)
  have h2 : ¬((0x7f : UInt32) < c.val) := fun h' => by
    have : (0x7f : UInt32).toNat < c.toNat := (UInt32.lt_def.trans BitVec.lt_def).1 h'
    exact absurd this (by show ¬(127 < c.toNat); omega)
  simp [isLowercase, h1, h2]

/-- A character is an ASCII one or lies above U+007F. -/
theorem ascii_or_ge (c : Char) : (∃ i : Fin 128, Char.ofNat i = c) ∨ 128 ≤ c.toNat := by
  by_cases h : c.toNat < 128
  · exact .inl ⟨⟨c.toNat, h⟩, Char.ofNat_toNat c⟩
  · exact .inr (by omega)

/-- Above U+007F the case maps change nothing and no character is a letter. -/
theorem case_of_ge {c : Char} (h : 128 ≤ c.toNat) :
    c.toUpper = c ∧ c.toLower = c ∧ c.isAlpha = false := by
  have hv : ¬c.val ≤ 122 := fun hv => by
    have : c.toNat ≤ (122 : UInt32).toNat := (val_le_iff c 122).1 hv
    exact absurd this (by show ¬(c.toNat ≤ 122); omega)
  refine ⟨if_neg (by omega), if_neg (by omega), ?_⟩
  simp [Char.isAlpha, Char.isUpper, Char.isLower, show ¬c.val ≤ 90 from fun h' =>
    hv (UInt32.le_trans h' (by decide)), hv]

theorem toLower_toUpper (c : Char) : c.toUpper.toLower = c.toLower := by
  rcases ascii_or_ge c with ⟨i, rfl⟩ | h
  · revert i
    decide
  · rw [(case_of_ge h).1]

theorem toLower_toLower (c : Char) : c.toLower.toLower = c.toLower := by
  rcases ascii_or_ge c with ⟨i, rfl⟩ | h
  · revert i
    decide
  · rw [(case_of_ge h).2.1, (case_of_ge h).2.1]

theorem isAlpha_toUpper (c : Char) : c.toUpper.isAlpha = c.isAlpha := by
  rcases ascii_or_ge c with ⟨i, rfl⟩ | h
  · revert i
    decide
  · rw [(case_of_ge h).1]

theorem isAlpha_toLower (c : Char) : c.toLower.isAlpha = c.isAlpha := by
  rcases ascii_or_ge c with ⟨i, rfl⟩ | h
  · revert i
    decide
  · rw [(case_of_ge h).2.1]

@[simp] theorem toLowercase_toUppercase (s : String) :
    toLowercase (toUppercase s) = toLowercase s := by
  simp only [toLowercase, toUppercase, String.toList, List.map_map]
  exact congrArg String.mk (List.map_congr_left fun c _ => toLower_toUpper c)

@[simp] theorem toLowercase_toLowercase (s : String) :
    toLowercase (toLowercase s) = toLowercase s := by
  simp only [toLowercase, String.toList, List.map_map]
  exact congrArg String.mk (List.map_congr_left fun c _ => toLower_toLower c)


/-- `replacen` by a text that `g` maps as it maps the pattern changes nothing `g` sees. -/
theorem map_replaceFirst {g : Char → Char} {pat rep : List Char} (h : pat.map g = rep.map g)
    (s : List Char) : (replaceFirst pat rep s).map g = s.map g := by
  induction s with
  | nil =>
    unfold replaceFirst
    split_ifs with hp
    · obtain ⟨t, ht⟩ := List.isPrefixOf_iff_prefix.1 hp
      rw [← h, (List.append_eq_nil.1 ht).1]
    · rfl
  | cons c cs ih =>
    unfold replaceFirst
    split_ifs with hp
    · obtain ⟨t, ht⟩ := List.isPrefixOf_iff_prefix.1 hp
      rw [← ht, List.drop_left, List.map_append, List.map_append, h]
    · rw [List.map_cons, List.map_cons, ih]

/-- **Upper-casing the first occurrence of a text changes only the case of letters.** -/
theorem toLowercase_replacen_toUppercase (s pat : String) :
    toLowercase (replacen s pat (toUppercase pat)) = toLowercase s := by
  have h : pat.toList.map Char.toLower = (toUppercase pat).toList.map Char.toLower := by
    show _ = (pat.toList.map Char.toUpper).map Char.toLower
    rw [List.map_map]
    exact List.map_congr_left fun c _ => (toLower_toUpper c).symm
  exact congrArg String.mk (map_replaceFirst h s.toList)

end PayjoinUri.Text
