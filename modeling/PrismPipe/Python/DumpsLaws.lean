import PrismPipe.Python.Dumps
import PrismPipe.Python.Similar

/-! The text of `dumps` tells its value, but for the order of the items of objects and for two
surrogates that stand for one character. -/

namespace PrismPipe.Python

def units (c : CodePoint) : List CodePoint :=
  if c.val < 0x10000 then [c]
  else [⟨0xD800 + (c.val - 0x10000) / 0x400, by omega⟩, ⟨0xDC00 + c.val % 0x400, by omega⟩]

def PyStr.utf16 (s : PyStr) : PyStr := s.flatMap units

theorem units_lt {c d : CodePoint} (h : d ∈ units c) : d.val < 0x10000 := by
  have hc := c.isLt
  unfold units at h
  split at h
  next hlt =>
    rw [List.mem_singleton.mp h]
    exact hlt
  · rcases List.mem_cons.mp h with rfl | h
    · dsimp only
      omega
    · rw [List.mem_singleton.mp h]
      dsimp only
      omega

theorem escapeChar_surrogate {n : Nat} (h : 0xD800 ≤ n) (hlt : n < 0x10000) :
    escapeChar ⟨n, by omega⟩ = '\\' :: 'u' :: hex4 n := by
  have h' : ∀ k < 0xD800, n ≠ k := fun k hk => by omega
  rw [escapeChar, if_pos hlt, escapeUnit]
  simp [h' _ _, show ¬ n ≤ 0x7E by omega]

theorem flatMap_units (c : CodePoint) : (units c).flatMap escapeChar = escapeChar c := by
  have hc := c.isLt
  unfold units
  split
  · exact List.append_nil _
  next hlt =>
    rw [List.flatMap_cons, List.flatMap_singleton,
      escapeChar_surrogate (by omega) (by omega), escapeChar_surrogate (by omega) (by omega)]
    rw [escapeChar, if_neg hlt]

theorem flatMap_utf16 (s : PyStr) : s.utf16.flatMap escapeChar = s.flatMap escapeChar := by
  rw [PyStr.utf16, List.flatMap_assoc]
  exact List.flatMap_congr fun c _ => flatMap_units c

/-- `BACKSLASH`. -/
def unescape : Char → Nat
  | 'b' => 0x08
  | 'f' => 0x0C
  | 'n' => 0x0A
  | 'r' => 0x0D
  | 't' => 0x09
  | c => c.toNat

def hexDigit (c : Char) : Nat := if c.isDigit then c.toNat - '0'.toNat else c.toNat - 'a'.toNat + 10

def readUnit : List Char → Option (Nat × List Char)
  | '"' :: _ => none
  | '\\' :: 'u' :: a :: b :: c :: d :: t =>
    some (((hexDigit a * 0x10 + hexDigit b) * 0x10 + hexDigit c) * 0x10 + hexDigit d, t)
  | '\\' :: c :: t => some (unescape c, t)
  | c :: t => some (c.toNat, t)
  | [] => none

theorem hexDigit_digitChar : ∀ k < 0x10, hexDigit k.digitChar = k := by decide

theorem readUnit_hex4 {n : Nat} (h : n < 0x10000) (t : List Char) :
    readUnit ('\\' :: 'u' :: hex4 n ++ t) = some (n, t) := by
  have hdigit (k : Nat) := hexDigit_digitChar (k % 0x10) (Nat.mod_lt k (by decide))
  simp only [hex4, List.cons_append, List.nil_append, readUnit, hdigit]
  congr 2
  omega

theorem readUnit_plain {c : Char} (hquote : c ≠ '"') (hescape : c ≠ '\\') (t : List Char) :
    readUnit (c :: t) = some (c.toNat, t) := by
  unfold readUnit
  split <;> simp_all

theorem toNat_ofNat : ∀ n < 0x7F, (Char.ofNat n).toNat = n := by decide

theorem readUnit_escapeUnit {n : Nat} (h : n < 0x10000) (t : List Char) :
    readUnit (escapeUnit n ++ t) = some (n, t) := by
  unfold escapeUnit
  split
  next hn =>
    subst hn
    rfl
  next hescape =>
  split
  next hn =>
    subst hn
    rfl
  next hquote =>
  iterate 5
    split
    next hn =>
      subst hn
      rfl
  split
  next hprint =>
    obtain ⟨hq, he⟩ := ofNat_plain n (Nat.lt_succ_of_le hprint.2) hquote hescape
    rw [List.singleton_append, readUnit_plain hq he, toNat_ofNat n (Nat.lt_succ_of_le hprint.2)]
  · exact readUnit_hex4 h t

/-- The first unit that `escapeChar` wrote. -/
def readChar (t : List Char) : Option (CodePoint × List Char) :=
  match readUnit t with
  | some (n, t) => if h : n < 0x110000 then some (⟨n, h⟩, t) else none
  | none => none

theorem readChar_escapeChar {c : CodePoint} (h : c.val < 0x10000) (t : List Char) :
    readChar (escapeChar c ++ t) = some (c, t) := by
  rw [readChar, escapeChar, if_pos h, readUnit_escapeUnit h]
  exact dif_pos c.isLt

theorem encodeBasestring_inj {s t : PyStr} {x y : List Char}
    (h : encodeBasestring s ++ x = encodeBasestring t ++ y) : s.utf16 = t.utf16 ∧ x = y := by
  have hread (s : PyStr) : ∀ c ∈ s.utf16, ∀ t, readChar (escapeChar c ++ t) = some (c, t) := by
    intro c hc
    obtain ⟨d, -, hd⟩ := List.mem_flatMap.mp hc
    exact readChar_escapeChar (units_lt hd)
  rw [encodeBasestring, encodeBasestring, ← flatMap_utf16, ← flatMap_utf16 t] at h
  simp only [List.cons_append, List.append_assoc, List.cons.injEq, true_and] at h
  exact Quoted.flatMap_inj (hread s) (hread t) (fun _ => rfl) h

def Ends (t : List Char) : Prop := ∀ c ∈ t.head?, PyFloat.isWord c = false

theorem takeWhile_word (ht : ∀ c ∈ t, PyFloat.isWord c) (hx : Ends x) :
    (t ++ x).takeWhile PyFloat.isWord = t := by
  rw [List.takeWhile_append_of_pos ht]
  cases x with
  | nil => simp
  | cons c x => simp [hx c rfl]

theorem word_append_inj (ht : ∀ c ∈ t, PyFloat.isWord c) (hu : ∀ c ∈ u, PyFloat.isWord c)
    (hx : Ends x) (hy : Ends y) (h : t ++ x = u ++ y) : t = u ∧ x = y := by
  have htu : t = u := by rw [← takeWhile_word ht hx, h, takeWhile_word hu hy]
  subst htu
  exact ⟨rfl, List.append_cancel_left h⟩

theorem mem_intRepr (i : Int) : ∀ c ∈ intRepr i, c.isDigit ∨ c = '-' := by
  have hdigits : ∀ c ∈ Nat.toDigits 10 i.natAbs, c.isDigit ∨ c = '-' := fun c hc =>
    .inl (Nat.isDigit_of_mem_toDigits (by decide) (by decide) hc)
  unfold intRepr
  split
  · exact List.forall_mem_cons.mpr ⟨.inr rfl, hdigits⟩
  · exact hdigits

theorem intRepr_inj {i j : Int} (h : intRepr i = intRepr j) : i = j := by
  have habs {m n : Nat} (h : Nat.toDigits 10 m = Nat.toDigits 10 n) : m = n := by
    rw [← Nat.ofDigitChars_toDigits (b := 10) (n := m) (by decide) (by decide), h,
      Nat.ofDigitChars_toDigits (by decide) (by decide)]
  have hsign {m n : Nat} (h : '-' :: Nat.toDigits 10 m = Nat.toDigits 10 n) : False := by
    have hc := Nat.isDigit_of_mem_toDigits (b := 10) (n := n) (c := '-') (by decide) (by decide)
      (h ▸ List.mem_cons_self)
    cases hc
  unfold intRepr at h
  split at h
  · split at h
    · have := habs (List.cons.inj h).2
      omega
    · exact (hsign h).elim
  · split at h
    · exact (hsign h.symm).elim
    · have := habs h
      omega

theorem floatstr_ne_intRepr (f : PyFloat) (i : Int) : f.floatstr ≠ intRepr i := by
  intro h
  have hmem {c : Char} (hc : c ∈ f.floatstr) : c.isDigit ∨ c = '-' := mem_intRepr i c (h ▸ hc)
  cases f with
  | finite neg m =>
    have hsub : PyFloat.magnitudeRepr m ⊆ PyFloat.floatstr (.finite neg m) := by
      cases neg with
      | false => exact List.Subset.refl _
      | true => exact List.subset_cons_self _ _
    obtain hc | hc := PyFloat.point_or_exponent m <;> exact absurd (hmem (hsub hc)) (by decide)
  | inf neg => exact absurd (hmem (c := 'I') (by cases neg <;> decide)) (by decide)
  | nan => exact absurd (hmem (c := 'N') (by decide)) (by decide)

inductive IsName : List Char → Prop
  | isNull : IsName "null".toList
  | isTrue : IsName "true".toList
  | isFalse : IsName "false".toList

theorem IsName.not_numeric (h : IsName t) : t.all PyFloat.isNumeric = false := by
  cases h <;> rfl

theorem IsName.ne_intRepr (h : IsName t) (i : Int) : t ≠ intRepr i := by
  rintro rfl
  have hall : (intRepr i).all PyFloat.isNumeric = true := List.all_eq_true.mpr fun c hc => by
    obtain hc | rfl := mem_intRepr i c hc
    · exact PyFloat.isNumeric_of_isDigit hc
    · rfl
  exact Bool.false_ne_true (h.not_numeric.symm.trans hall)

theorem IsName.ne_floatstr (h : IsName t) (f : PyFloat) : t ≠ f.floatstr := by
  rintro rfl
  cases f with
  | finite neg m =>
    exact Bool.false_ne_true
      (h.not_numeric.symm.trans (List.all_eq_true.mpr (PyFloat.numeric_finite neg m)))
  | inf neg =>
    generalize ht : PyFloat.floatstr (.inf neg) = t at h
    cases neg <;> cases h <;> exact absurd ht (by decide)
  | nan =>
    generalize ht : PyFloat.floatstr .nan = t at h
    cases h <;> exact absurd ht (by decide)

namespace Json

def isBare : Json → Bool
  | .null | .bool _ | .int _ | .float _ => true
  | _ => false

def doubles (j : Json) : Bool := j.All PyFloat.isDouble fun _ => true

theorem word_write {j : Json} (h : j.isBare) : ∀ c ∈ j.write, PyFloat.isWord c := by
  cases j with
  | null => exact List.all_eq_true.mp rfl
  | bool b => cases b <;> exact List.all_eq_true.mp rfl
  | int i => exact word_intRepr i
  | float f => exact f.word_floatstr
  | str | list | dict => cases h

theorem isName_bool (b : Bool) : IsName (bool b).write := by
  cases b with
  | true => exact .isTrue
  | false => exact .isFalse

theorem write_inj_of_isBare {j k : Json} (hj : j.isBare) (hk : k.isBare) (hj' : j.doubles)
    (hk' : k.doubles) (h : j.write = k.write) : j = k := by
  cases j with
  | null =>
    cases k with
    | null => rfl
    | bool b => cases b <;> exact absurd h (by decide)
    | int i => exact absurd h (IsName.isNull.ne_intRepr i)
    | float f => exact absurd h (IsName.isNull.ne_floatstr f)
    | str | list | dict => cases hk
  | bool b =>
    cases k with
    | null => cases b <;> exact absurd h (by decide)
    | bool c =>
      have hinj : ∀ b c, (bool b).write = (bool c).write → b = c := by decide
      rw [hinj b c h]
    | int i => exact absurd h ((isName_bool b).ne_intRepr i)
    | float f => exact absurd h ((isName_bool b).ne_floatstr f)
    | str | list | dict => cases hk
  | int i =>
    cases k with
    | null => exact absurd h.symm (IsName.isNull.ne_intRepr i)
    | bool b => exact absurd h.symm ((isName_bool b).ne_intRepr i)
    | int i' => rw [intRepr_inj h]
    | float f => exact absurd h.symm (floatstr_ne_intRepr f i)
    | str | list | dict => cases hk
  | float f =>
    cases k with
    | null => exact absurd h.symm (IsName.isNull.ne_floatstr f)
    | bool b => exact absurd h.symm ((isName_bool b).ne_floatstr f)
    | int i => exact absurd h (floatstr_ne_intRepr f i)
    | float g => rw [PyFloat.floatstr_inj hj' hk' h]
    | str | list | dict => cases hk
  | str | list | dict => cases hj

theorem bare_or (j : Json) : j.isBare = true ∨ (∃ s, j = .str s) ∨ (∃ l, j = .list l) ∨
    ∃ d, j = .dict d := by
  cases j <;> simp [isBare]

theorem magnitudeRepr_ne_nil (m : ℚ≥0) : PyFloat.magnitudeRepr m ≠ [] := by
  obtain hc | hc := PyFloat.point_or_exponent m <;> exact List.ne_nil_of_mem hc

theorem write_ne_nil {j : Json} (h : j.isBare) : j.write ≠ [] := by
  cases j with
  | null => nofun
  | bool b => cases b <;> nofun
  | int i =>
    rw [write, intRepr]
    split
    · nofun
    · exact Nat.toDigits_ne_nil
  | float f =>
    cases f with
    | finite neg m =>
      cases neg with
      | false => exact magnitudeRepr_ne_nil m
      | true => nofun
    | inf neg => cases neg <;> nofun
    | nan => nofun
  | str | list | dict => cases h

theorem write_append_ne {j : Json} (h : j.isBare) (hc : PyFloat.isWord c = false)
    (x y : List Char) : j.write ++ x ≠ c :: y := by
  obtain ⟨d, t, ht⟩ := List.exists_cons_of_ne_nil (write_ne_nil h)
  intro hcons
  rw [ht] at hcons
  have hd := word_write h d (ht ▸ List.mem_cons_self)
  rw [(List.cons.inj hcons).1, hc] at hd
  cases hd

theorem write_ne_bracket (j : Json) (x y : List Char) : j.write ++ x ≠ ']' :: y := by
  obtain hj | ⟨s, rfl⟩ | ⟨l, rfl⟩ | ⟨d, rfl⟩ := j.bare_or
  · exact write_append_ne hj rfl x y
  all_goals exact fun h => nomatch (List.cons.inj h).1

def mapStr (f : PyStr → PyStr) : Json → Json
  | .str s => .str (f s)
  | .list items => .list (mapItems items)
  | .dict items => .dict (mapFields items)
  | j => j
where
  mapItems : List Json → List Json
    | [] => []
    | x :: xs => x.mapStr f :: mapItems xs
  mapFields : List (PyStr × Json) → List (PyStr × Json)
    | [] => []
    | (k, x) :: xs => (f k, x.mapStr f) :: mapFields xs

theorem ends_cons (h : PyFloat.isWord c = false) (t : List Char) : Ends (c :: t) := by
  rintro _ ⟨⟩
  exact h

theorem ends_moreItems (l : List Json) (x : List Char) : Ends (write.moreItems l ++ ']' :: x) := by
  cases l <;> exact ends_cons rfl _

theorem ends_moreFields (d : Dict) (x : List Char) : Ends (write.moreFields d ++ '}' :: x) := by
  cases d <;> exact ends_cons rfl _

theorem doubles_list_cons {j : Json} {l : List Json} :
    doubles (.list (j :: l)) ↔ j.doubles ∧ doubles (.list l) := by
  simp [doubles]

theorem doubles_dict_cons {k : PyStr} {j : Json} {d : Dict} :
    doubles (.dict ((k, j) :: d)) ↔ j.doubles ∧ doubles (.dict d) := by
  simp [doubles]

theorem write_inj_bare {j k : Json} (hb : j.isBare) (hj : j.doubles) (hk : k.doubles)
    (hx : Ends x) (hy : Ends y) (h : j.write ++ x = k.write ++ y) :
    j.mapStr PyStr.utf16 = k.mapStr PyStr.utf16 ∧ x = y := by
  obtain hkb | ⟨s, rfl⟩ | ⟨l, rfl⟩ | ⟨d, rfl⟩ := k.bare_or
  · obtain ⟨hw, hxy⟩ := word_append_inj (word_write hb) (word_write hkb) hx hy h
    rw [write_inj_of_isBare hb hkb hj hk hw]
    exact ⟨rfl, hxy⟩
  all_goals exact absurd h (write_append_ne hb rfl _ _)

theorem key_inj {k k' : PyStr} {x y : List Char}
    (h : encodeBasestring k ++ ':' :: ' ' :: x = encodeBasestring k' ++ ':' :: ' ' :: y) :
    k.utf16 = k'.utf16 ∧ x = y := by
  obtain ⟨hk, h⟩ := encodeBasestring_inj h
  exact ⟨hk, (List.cons.inj (List.cons.inj h).2).2⟩

mutual

theorem write_inj : ∀ (j k : Json) {x y : List Char}, j.doubles → k.doubles → Ends x → Ends y →
    j.write ++ x = k.write ++ y → j.mapStr PyStr.utf16 = k.mapStr PyStr.utf16 ∧ x = y
  | .null, _, _, _, hj, hk, hx, hy, h => write_inj_bare rfl hj hk hx hy h
  | .bool _, _, _, _, hj, hk, hx, hy, h => write_inj_bare rfl hj hk hx hy h
  | .int _, _, _, _, hj, hk, hx, hy, h => write_inj_bare rfl hj hk hx hy h
  | .float _, _, _, _, hj, hk, hx, hy, h => write_inj_bare rfl hj hk hx hy h
  | .str s, k, x, y, hj, hk, hx, hy, h => by
    obtain hb | ⟨t, rfl⟩ | ⟨l, rfl⟩ | ⟨d, rfl⟩ := k.bare_or
    · exact absurd h.symm (write_append_ne hb rfl _ _)
    · obtain ⟨hs, hxy⟩ := encodeBasestring_inj h
      exact ⟨congrArg str hs, hxy⟩
    all_goals exact nomatch (List.cons.inj h).1
  | .list items, k, x, y, hj, hk, hx, hy, h => by
    obtain hb | ⟨t, rfl⟩ | ⟨items', rfl⟩ | ⟨d, rfl⟩ := k.bare_or
    · exact absurd h.symm (write_append_ne hb rfl _ _)
    · exact nomatch (List.cons.inj h).1
    · simp only [write, List.cons_append, List.append_assoc, List.cons.injEq, true_and,
        List.nil_append] at h
      obtain ⟨hi, hxy⟩ := writeItems_inj items items' hj hk h
      exact ⟨congrArg list hi, hxy⟩
    · exact nomatch (List.cons.inj h).1
  | .dict items, k, x, y, hj, hk, hx, hy, h => by
    obtain hb | ⟨t, rfl⟩ | ⟨l, rfl⟩ | ⟨items', rfl⟩ := k.bare_or
    · exact absurd h.symm (write_append_ne hb rfl _ _)
    · exact nomatch (List.cons.inj h).1
    · exact nomatch (List.cons.inj h).1
    · simp only [write, List.cons_append, List.append_assoc, List.cons.injEq, true_and,
        List.nil_append] at h
      obtain ⟨hi, hxy⟩ := writeFields_inj items items' hj hk h
      exact ⟨congrArg dict hi, hxy⟩

theorem writeItems_inj : ∀ (l l' : List Json) {x y : List Char}, doubles (.list l) →
    doubles (.list l') → write.writeItems l ++ ']' :: x = write.writeItems l' ++ ']' :: y →
    mapStr.mapItems PyStr.utf16 l = mapStr.mapItems PyStr.utf16 l' ∧ x = y
  | [], [], _, _, _, _, h => ⟨rfl, (List.cons.inj h).2⟩
  | [], k :: l', _, _, _, _, h => by
    rw [write.writeItems, write.writeItems, List.append_assoc] at h
    exact absurd h.symm (write_ne_bracket k _ _)
  | j :: l, [], _, _, _, _, h => by
    rw [write.writeItems, write.writeItems, List.append_assoc] at h
    exact absurd h (write_ne_bracket j _ _)
  | j :: l, k :: l', x, y, hj, hk, h => by
    obtain ⟨hj, hl⟩ := doubles_list_cons.mp hj
    obtain ⟨hk, hl'⟩ := doubles_list_cons.mp hk
    rw [write.writeItems, write.writeItems, List.append_assoc, List.append_assoc] at h
    obtain ⟨hjk, h⟩ := write_inj j k hj hk (ends_moreItems l x) (ends_moreItems l' y) h
    obtain ⟨hll', hxy⟩ := moreItems_inj l l' hl hl' h
    exact ⟨congrArg₂ List.cons hjk hll', hxy⟩

theorem moreItems_inj : ∀ (l l' : List Json) {x y : List Char}, doubles (.list l) →
    doubles (.list l') → write.moreItems l ++ ']' :: x = write.moreItems l' ++ ']' :: y →
    mapStr.mapItems PyStr.utf16 l = mapStr.mapItems PyStr.utf16 l' ∧ x = y
  | [], [], _, _, _, _, h => ⟨rfl, (List.cons.inj h).2⟩
  | [], k :: l', _, _, _, _, h => nomatch (List.cons.inj h).1
  | j :: l, [], _, _, _, _, h => nomatch (List.cons.inj h).1
  | j :: l, k :: l', x, y, hj, hk, h => by
    obtain ⟨hj, hl⟩ := doubles_list_cons.mp hj
    obtain ⟨hk, hl'⟩ := doubles_list_cons.mp hk
    simp only [write.moreItems, List.cons_append, List.append_assoc, List.cons.injEq,
      true_and] at h
    obtain ⟨hjk, h⟩ := write_inj j k hj hk (ends_moreItems l x) (ends_moreItems l' y) h
    obtain ⟨hll', hxy⟩ := moreItems_inj l l' hl hl' h
    exact ⟨congrArg₂ List.cons hjk hll', hxy⟩

theorem writeFields_inj : ∀ (d d' : Dict) {x y : List Char}, doubles (.dict d) →
    doubles (.dict d') → write.writeFields d ++ '}' :: x = write.writeFields d' ++ '}' :: y →
    mapStr.mapFields PyStr.utf16 d = mapStr.mapFields PyStr.utf16 d' ∧ x = y
  | [], [], _, _, _, _, h => ⟨rfl, (List.cons.inj h).2⟩
  | [], (k, j) :: d', _, _, _, _, h => nomatch (List.cons.inj h).1
  | (k, j) :: d, [], _, _, _, _, h => nomatch (List.cons.inj h).1
  | (k, j) :: d, (k', j') :: d', x, y, hj, hj', h => by
    obtain ⟨hj, hd⟩ := doubles_dict_cons.mp hj
    obtain ⟨hj', hd'⟩ := doubles_dict_cons.mp hj'
    simp only [write.writeFields, List.cons_append, List.append_assoc] at h
    obtain ⟨hk, h⟩ := key_inj h
    obtain ⟨hjj', h⟩ := write_inj j j' hj hj' (ends_moreFields d x) (ends_moreFields d' y) h
    obtain ⟨hdd', hxy⟩ := moreFields_inj d d' hd hd' h
    exact ⟨congrArg₂ List.cons (Prod.ext hk hjj') hdd', hxy⟩

theorem moreFields_inj : ∀ (d d' : Dict) {x y : List Char}, doubles (.dict d) →
    doubles (.dict d') → write.moreFields d ++ '}' :: x = write.moreFields d' ++ '}' :: y →
    mapStr.mapFields PyStr.utf16 d = mapStr.mapFields PyStr.utf16 d' ∧ x = y
  | [], [], _, _, _, _, h => ⟨rfl, (List.cons.inj h).2⟩
  | [], (k, j) :: d', _, _, _, _, h => nomatch (List.cons.inj h).1
  | (k, j) :: d, [], _, _, _, _, h => nomatch (List.cons.inj h).1
  | (k, j) :: d, (k', j') :: d', x, y, hj, hj', h => by
    obtain ⟨hj, hd⟩ := doubles_dict_cons.mp hj
    obtain ⟨hj', hd'⟩ := doubles_dict_cons.mp hj'
    simp only [write.moreFields, List.cons_append, List.append_assoc, List.cons.injEq,
      true_and] at h
    obtain ⟨hk, h⟩ := key_inj h
    obtain ⟨hjj', h⟩ := write_inj j j' hj hj' (ends_moreFields d x) (ends_moreFields d' y) h
    obtain ⟨hdd', hxy⟩ := moreFields_inj d d' hd hd' h
    exact ⟨congrArg₂ List.cons (Prod.ext hk hjj') hdd', hxy⟩

end

theorem encodeBasestring_utf16 (s : PyStr) : encodeBasestring s.utf16 = encodeBasestring s := by
  rw [encodeBasestring, flatMap_utf16, encodeBasestring]

mutual

theorem write_utf16 : ∀ j : Json, (j.mapStr PyStr.utf16).write = j.write
  | .null | .bool _ | .int _ | .float _ => rfl
  | .str s => encodeBasestring_utf16 s
  | .list items => by rw [mapStr, write, write, writeItems_utf16 items]
  | .dict items => by rw [mapStr, write, write, writeFields_utf16 items]

theorem writeItems_utf16 : ∀ l : List Json,
    write.writeItems (mapStr.mapItems PyStr.utf16 l) = write.writeItems l
  | [] => rfl
  | j :: l => by
    rw [mapStr.mapItems, write.writeItems, write.writeItems, write_utf16 j, moreItems_utf16 l]

theorem moreItems_utf16 : ∀ l : List Json,
    write.moreItems (mapStr.mapItems PyStr.utf16 l) = write.moreItems l
  | [] => rfl
  | j :: l => by
    rw [mapStr.mapItems, write.moreItems, write.moreItems, write_utf16 j, moreItems_utf16 l]

theorem writeFields_utf16 : ∀ d : Dict,
    write.writeFields (mapStr.mapFields PyStr.utf16 d) = write.writeFields d
  | [] => rfl
  | (k, j) :: d => by
    rw [mapStr.mapFields, write.writeFields, write.writeFields, encodeBasestring_utf16,
      write_utf16 j, moreFields_utf16 d]

theorem moreFields_utf16 : ∀ d : Dict,
    write.moreFields (mapStr.mapFields PyStr.utf16 d) = write.moreFields d
  | [] => rfl
  | (k, j) :: d => by
    rw [mapStr.mapFields, write.moreFields, write.moreFields, encodeBasestring_utf16,
      write_utf16 j, moreFields_utf16 d]

end

theorem dumps_eq_iff {p q : Json} (hp : p.doubles) (hq : q.doubles) :
    p.dumps = q.dumps ↔ p.sortKeys.mapStr PyStr.utf16 = q.sortKeys.mapStr PyStr.utf16 := by
  rw [dumps_inj]
  constructor
  · intro h
    have hp' : p.sortKeys.doubles := (all_sortKeys p).trans hp
    have hq' : q.sortKeys.doubles := (all_sortKeys q).trans hq
    exact (write_inj (x := []) (y := []) _ _ hp' hq' nofun nofun (by rw [h])).1
  · intro h
    rw [← write_utf16, h, write_utf16]

end Json

section Encodable

theorem units_inj {c d : CodePoint} (hc : PyStr.isSurrogate c = false)
    (hd : PyStr.isSurrogate d = false) {s t : PyStr} (h : units c ++ s = units d ++ t) :
    c = d ∧ s = t := by
  have hc' := c.isLt
  have hd' := d.isLt
  simp only [PyStr.isSurrogate, Bool.and_eq_false_iff, decide_eq_false_iff_not] at hc hd
  unfold units at h
  split at h
  · split at h
    · exact List.cons.inj h
    · have hval := congrArg Fin.val (List.cons.inj h).1
      dsimp only at hval
      omega
  · split at h
    · have hval := congrArg Fin.val (List.cons.inj h).1
      dsimp only at hval
      omega
    · obtain ⟨hhigh, h⟩ := List.cons.inj h
      obtain ⟨hlow, hst⟩ := List.cons.inj h
      have hhigh := congrArg Fin.val hhigh
      have hlow := congrArg Fin.val hlow
      dsimp only at hhigh hlow
      exact ⟨Fin.ext (by omega), hst⟩

theorem utf16_inj {s t : PyStr} (hs : s.encodable) (ht : t.encodable) (h : s.utf16 = t.utf16) :
    s = t := by
  have hne (c : CodePoint) : units c ≠ [] := by
    unfold units
    split <;> nofun
  induction s generalizing t with
  | nil =>
    cases t with
    | nil => rfl
    | cons d t => exact absurd (List.append_eq_nil_iff.mp h.symm).1 (hne d)
  | cons c s ih =>
    cases t with
    | nil => exact absurd (List.append_eq_nil_iff.mp h).1 (hne c)
    | cons d t =>
      simp only [PyStr.encodable, List.all_cons, Bool.and_eq_true, Bool.not_eq_true'] at hs ht
      obtain ⟨rfl, hst⟩ := units_inj hs.1 ht.1 h
      rw [ih hs.2 ht.2 hst]

namespace Json

variable {f : PyStr → PyStr} {pf : PyFloat → Bool} {ps : PyStr → Bool}

mutual

theorem mapStr_inj (hf : ∀ {s t}, ps s → ps t → f s = f t → s = t) :
    ∀ j k : Json, j.All pf ps → k.All pf ps → j.mapStr f = k.mapStr f → j = k
  | .null, k, _, _, h | .bool _, k, _, _, h | .int _, k, _, _, h | .float _, k, _, _, h => by
    cases k <;> first | exact h | cases h
  | .str s, k, hj, hk, h => by
    cases k with
    | str t => rw [hf hj hk (str.inj h)]
    | _ => cases h
  | .list l, k, hj, hk, h => by
    cases k with
    | list l' => rw [mapItems_inj hf l l' hj hk (list.inj h)]
    | _ => cases h
  | .dict d, k, hj, hk, h => by
    cases k with
    | dict d' => rw [mapFields_inj hf d d' hj hk (dict.inj h)]
    | _ => cases h

theorem mapItems_inj (hf : ∀ {s t}, ps s → ps t → f s = f t → s = t) :
    ∀ l l' : List Json, All.allItems pf ps l → All.allItems pf ps l' →
    mapStr.mapItems f l = mapStr.mapItems f l' → l = l'
  | [], [], _, _, _ => rfl
  | [], k :: l', _, _, h => nomatch h
  | j :: l, [], _, _, h => nomatch h
  | j :: l, k :: l', hj, hk, h => by
    obtain ⟨hj, hl⟩ := Bool.and_eq_true_iff.mp hj
    obtain ⟨hk, hl'⟩ := Bool.and_eq_true_iff.mp hk
    obtain ⟨hjk, hll'⟩ := List.cons.inj h
    rw [mapStr_inj hf j k hj hk hjk, mapItems_inj hf l l' hl hl' hll']

theorem mapFields_inj (hf : ∀ {s t}, ps s → ps t → f s = f t → s = t) :
    ∀ d d' : Dict, All.allFields pf ps d → All.allFields pf ps d' →
    mapStr.mapFields f d = mapStr.mapFields f d' → d = d'
  | [], [], _, _, _ => rfl
  | [], (k, j) :: d', _, _, h => nomatch h
  | (k, j) :: d, [], _, _, h => nomatch h
  | (k, j) :: d, (k', j') :: d', hj, hj', h => by
    obtain ⟨hj, hd⟩ := Bool.and_eq_true_iff.mp hj
    obtain ⟨hk, hj⟩ := Bool.and_eq_true_iff.mp hj
    obtain ⟨hj', hd'⟩ := Bool.and_eq_true_iff.mp hj'
    obtain ⟨hk', hj'⟩ := Bool.and_eq_true_iff.mp hj'
    obtain ⟨hkj, hdd'⟩ := List.cons.inj h
    obtain ⟨hkk', hjj'⟩ := Prod.mk.inj hkj
    rw [hf hk hk' hkk', mapStr_inj hf j j' hj hj' hjj', mapFields_inj hf d d' hd hd' hdd']

end

theorem dumps_eq_iff_similar {p q : Json} (hp : p.doubles) (hq : q.doubles) (hp' : p.encodable)
    (hq' : q.encodable) : p.dumps = q.dumps ↔ p.Similar q := by
  rw [dumps_eq_iff hp hq]
  constructor
  · exact mapStr_inj utf16_inj _ _ ((encodable_sortKeys p).trans hp')
      ((encodable_sortKeys q).trans hq')
  · intro h
    rw [show p.sortKeys = q.sortKeys from h]

end Json

end Encodable

end PrismPipe.Python
