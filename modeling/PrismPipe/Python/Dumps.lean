import PrismPipe.Lib.Quoted
import PrismPipe.Python.FloatRepr
import PrismPipe.Python.JsonLaws

/-! The text of `json.dumps(..., sort_keys=True)`, where no limit on nesting or on the digits of an
integer stops it. -/

namespace PrismPipe.Python

/-- `{0:04x}`. -/
def hex4 (n : Nat) : List Char := [
  (n / 0x1000 % 0x10).digitChar,
  (n / 0x100 % 0x10).digitChar,
  (n / 0x10 % 0x10).digitChar,
  (n % 0x10).digitChar]

/-- `ESCAPE_ASCII` on what two bytes hold. -/
def escapeUnit (n : Nat) : List Char :=
  if n = 0x5C then ['\\', '\\']
  else if n = 0x22 then ['\\', '"']
  else if n = 0x08 then ['\\', 'b']
  else if n = 0x0C then ['\\', 'f']
  else if n = 0x0A then ['\\', 'n']
  else if n = 0x0D then ['\\', 'r']
  else if n = 0x09 then ['\\', 't']
  else if 0x20 ≤ n ∧ n ≤ 0x7E then [Char.ofNat n]
  else '\\' :: 'u' :: hex4 n

def escapeChar (c : CodePoint) : List Char :=
  if c.val < 0x10000 then escapeUnit c.val
  else '\\' :: 'u' :: hex4 (0xD800 + (c.val - 0x10000) / 0x400) ++
    '\\' :: 'u' :: hex4 (0xDC00 + c.val % 0x400)

/-- `py_encode_basestring_ascii`. -/
def encodeBasestring (s : PyStr) : List Char := '"' :: s.flatMap escapeChar ++ ['"']

/-- `int.__repr__`. -/
def intRepr (i : Int) : List Char :=
  if i < 0 then '-' :: Nat.toDigits 10 i.natAbs else Nat.toDigits 10 i.natAbs

namespace Json

/-- `_iterencode` with the default separators, in the order of the items. -/
def write : Json → List Char
  | .null => "null".toList
  | .bool b => if b then "true".toList else "false".toList
  | .int i => intRepr i
  | .float f => f.floatstr
  | .str s => encodeBasestring s
  | .list items => '[' :: writeItems items ++ [']']
  | .dict items => '{' :: writeFields items ++ ['}']
where
  writeItems : List Json → List Char
    | [] => []
    | x :: xs => x.write ++ moreItems xs
  moreItems : List Json → List Char
    | [] => []
    | x :: xs => ',' :: ' ' :: (x.write ++ moreItems xs)
  writeFields : List (PyStr × Json) → List Char
    | [] => []
    | (k, x) :: xs => encodeBasestring k ++ ':' :: ' ' :: x.write ++ moreFields xs
  moreFields : List (PyStr × Json) → List Char
    | [] => []
    | (k, x) :: xs => ',' :: ' ' :: (encodeBasestring k ++ ':' :: ' ' :: x.write ++ moreFields xs)

/-- `json.dumps(j, sort_keys=True)`. -/
def dumps (j : Json) : PyStr := py (String.ofList j.sortKeys.write)

end Json

def point (c : Char) : CodePoint := ⟨c.toNat, toNat_lt c⟩

theorem point_injective : Function.Injective point := by
  intro c d h
  exact Char.toNat_inj.mp (Fin.mk.inj h)

theorem py_ofList (t : List Char) : py (String.ofList t) = t.map point := by
  rw [py, String.toList_ofList]
  rfl

/-- The characters of JSON that a reader of `v + ":" + dumps(p)` tells the parts by. -/
def marks : Quoted.Marks Char := ⟨'"', '\\', ':', ' ', by decide⟩

theorem digitChar_plain : ∀ k < 0x10, k.digitChar ≠ '"' ∧ k.digitChar ≠ '\\' := by decide

theorem body_hex4 (n : Nat) : marks.Body (hex4 n) := by
  have h (k : Nat) := digitChar_plain (k % 0x10) (Nat.mod_lt k (by decide))
  exact .plain (by simp [hex4, marks, (h _).1.symm]) (by simp [hex4, marks, (h _).2.symm])

theorem ofNat_plain : ∀ n < 0x7F, n ≠ 0x22 → n ≠ 0x5C →
    Char.ofNat n ≠ '"' ∧ Char.ofNat n ≠ '\\' := by
  decide

theorem body_escapeUnit (n : Nat) : marks.Body (escapeUnit n) := by
  unfold escapeUnit
  split
  · exact .escaped _ .nil
  next hescape =>
  split
  · exact .escaped _ .nil
  next hquote =>
  iterate 5
    split
    · exact .escaped _ .nil
  split
  next hprint =>
    obtain ⟨hq, he⟩ := ofNat_plain n (Nat.lt_succ_of_le hprint.2) hquote hescape
    exact .plain (by simpa [marks] using hq.symm) (by simpa [marks] using he.symm)
  · exact .escaped _ (body_hex4 n)

theorem body_escapeChar (c : CodePoint) : marks.Body (escapeChar c) := by
  unfold escapeChar
  split
  · exact body_escapeUnit _
  · exact .append (.escaped _ (body_hex4 _)) (.escaped _ (body_hex4 _))

theorem closed_encodeBasestring (s : PyStr) : marks.Closed (encodeBasestring s) :=
  .quoted (.flatMap body_escapeChar s)

theorem word_intRepr (i : Int) : ∀ c ∈ intRepr i, PyFloat.isWord c := by
  have hdigits : ∀ c ∈ Nat.toDigits 10 i.natAbs, PyFloat.isWord c := fun c hc =>
    PyFloat.isWord_of_isNumeric (PyFloat.numeric_toDigits _ c hc)
  unfold intRepr
  split
  · exact List.forall_mem_cons.mpr ⟨rfl, hdigits⟩
  · exact hdigits

theorem closed_of_word (h : ∀ c ∈ t, PyFloat.isWord c) : marks.Closed t :=
  .plain (fun hc => nomatch h _ hc) (fun hc => nomatch h _ hc) (fun hc => nomatch h _ hc)

namespace Json

mutual

theorem closed_write : ∀ j : Json, marks.Closed j.write
  | .null => closed_of_word (List.all_eq_true.mp rfl)
  | .bool true | .bool false => closed_of_word (List.all_eq_true.mp rfl)
  | .int i => closed_of_word (word_intRepr i)
  | .float f => closed_of_word f.word_floatstr
  | .str s => closed_encodeBasestring s
  | .list items => .append (.append (x := ['[']) rfl (closed_writeItems items)) rfl
  | .dict items => .append (.append (x := ['{']) rfl (closed_writeFields items)) rfl

theorem closed_writeItems : ∀ items : List Json, marks.Closed (write.writeItems items)
  | [] => .nil
  | x :: xs => (closed_write x).append (closed_moreItems xs)

theorem closed_moreItems : ∀ items : List Json, marks.Closed (write.moreItems items)
  | [] => .nil
  | x :: xs => .append (x := [',', ' ']) rfl ((closed_write x).append (closed_moreItems xs))

theorem closed_writeFields : ∀ items : Dict, marks.Closed (write.writeFields items)
  | [] => .nil
  | (k, x) :: xs =>
    (Quoted.Marks.Closed.separated (closed_encodeBasestring k) (closed_write x)).append
      (closed_moreFields xs)

theorem closed_moreFields : ∀ items : Dict, marks.Closed (write.moreFields items)
  | [] => .nil
  | (k, x) :: xs => .append (x := [',', ' ']) rfl
    ((Quoted.Marks.Closed.separated (closed_encodeBasestring k) (closed_write x)).append
      (closed_moreFields xs))

end

theorem head_write (j : Json) : j.write.head? ≠ some ' ' := by
  have hword {t : List Char} (h : ∀ c ∈ t, PyFloat.isWord c) : t.head? ≠ some ' ' :=
    fun ht => nomatch h ' ' (List.mem_of_head? ht)
  cases j with
  | null => nofun
  | bool b => cases b <;> nofun
  | int i => exact hword (word_intRepr i)
  | float f => exact hword f.word_floatstr
  | str | list | dict => nofun

theorem dumps_inj {p q : Json} : p.dumps = q.dumps ↔ p.sortKeys.write = q.sortKeys.write := by
  rw [dumps, dumps, py_inj, String.ofList_inj]

theorem append_dumps_inj {v w : PyStr} {p q : Json} :
    v ++ py ":" ++ p.dumps = w ++ py ":" ++ q.dumps ↔ v = w ∧ p.dumps = q.dumps := by
  have h := Quoted.Marks.Closed.append_inj (m := marks) point_injective
    (closed_write p.sortKeys) (closed_write q.sortKeys) (head_write _) (head_write _)
    (v := v) (w := w)
  rw [dumps_inj, ← h]
  simp only [dumps, py_ofList, List.append_assoc]
  rfl

end Json

end PrismPipe.Python
