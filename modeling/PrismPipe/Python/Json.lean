import Mathlib.Algebra.Field.Rat
import Mathlib.Data.List.Sort

/-! The values `json.loads` produces, and the parts of Python the document code uses on them:
`str` with lone surrogates, `float`, equality, and canonical serialisation. -/

namespace PrismPipe.Python

abbrev CodePoint := Fin 0x110000

/-- A Python `str`.  Surrogates may stand alone, so it is wider than `String`. -/
abbrev PyStr := List CodePoint

instance : LawfulBEq PyStr := inferInstance

theorem toNat_lt (c : Char) : c.toNat < 0x110000 := by
  have := c.valid
  simp only [UInt32.isValidChar, Nat.isValidChar] at this
  change c.val.toNat < _
  omega

def py (s : String) : PyStr := s.toList.map fun c => ⟨c.toNat, toNat_lt c⟩

namespace PyStr

def isSurrogate (c : CodePoint) : Bool := 0xD800 ≤ c.val && c.val ≤ 0xDFFF

/-- `s.encode("utf-8")` succeeds. -/
def encodable (s : PyStr) : Bool := s.all fun c => !isSurrogate c

/-- `str.isspace` on one code point. -/
def isSpace (c : CodePoint) : Bool :=
  (0x09 ≤ c.val && c.val ≤ 0x0D) || (0x1C ≤ c.val && c.val ≤ 0x20) || c.val == 0x85 ||
    c.val == 0xA0 || c.val == 0x1680 || (0x2000 ≤ c.val && c.val ≤ 0x200A) ||
    c.val == 0x2028 || c.val == 0x2029 || c.val == 0x202F || c.val == 0x205F || c.val == 0x3000

/-- `not s.strip()`. -/
def isBlank (s : PyStr) : Bool := s.all isSpace

/-- `s <= t`, by code points. -/
def le : PyStr → PyStr → Bool
  | [], _ => true
  | _ :: _, [] => false
  | a :: s, b :: t => a.val < b.val || (a == b && le s t)

/-- `sep.join(parts)`. -/
def join (sep : PyStr) : List PyStr → PyStr
  | [] => []
  | [s] => s
  | s :: t :: rest => s ++ sep ++ join sep (t :: rest)

end PyStr

/-- A Python `float`: its sign and magnitude, or one of the values JSON has no number for. -/
inductive PyFloat
  | finite (neg : Bool) (magnitude : ℚ≥0)
  | inf (neg : Bool)
  | nan
  deriving DecidableEq

namespace PyFloat

def isFinite : PyFloat → Bool
  | .finite _ _ => true
  | _ => false

def value? : PyFloat → Option ℚ
  | .finite neg m => some (if neg then -m else m)
  | _ => none

/-- `n` rounded to 53 significant bits, ties to even. -/
def roundDouble (n : Nat) : Nat :=
  let e := Nat.log2 n - 52
  let q := n / 2 ^ e
  let r := n % 2 ^ e
  (if 2 ^ e < 2 * r || (2 * r == 2 ^ e && q % 2 == 1) then q + 1 else q) * 2 ^ e

/-- `float(i)`; `none` is `OverflowError`. -/
def ofInt (i : Int) : Option PyFloat :=
  let n := roundDouble i.natAbs
  if n < 2 ^ 1024 then some (.finite (i < 0) n) else none

end PyFloat

/-- A value of `json.loads`.  An object is its items in order; the first entry of a key counts. -/
inductive Json
  | null
  | bool (b : Bool)
  | int (i : Int)
  | float (f : PyFloat)
  | str (s : PyStr)
  | list (items : List Json)
  | dict (items : List (PyStr × Json))
  deriving Inhabited

abbrev Dict := List (PyStr × Json)

namespace Dict

def find (d : Dict) (key : PyStr) : Option Json := (d.find? fun kv => kv.1 = key).map (·.2)

/-- `d.get(key)`. -/
def get (d : Dict) (key : String) : Json := (d.find (py key)).getD .null

/-- `key in d`. -/
def has (d : Dict) (key : String) : Bool := (d.find (py key)).isSome

/-- `d[key] = value`. -/
def set (d : Dict) (key : PyStr) (value : Json) : Dict :=
  if d.any fun kv => kv.1 = key then d.map fun kv => if kv.1 = key then (key, value) else kv
  else d ++ [(key, value)]

end Dict

namespace Json

/-- Every float satisfies `pf`, and every string and key satisfies `ps`. -/
def All (pf : PyFloat → Bool) (ps : PyStr → Bool) : Json → Bool
  | .float f => pf f
  | .str s => ps s
  | .list items => allItems items
  | .dict items => allFields items
  | _ => true
where
  allItems : List Json → Bool
    | [] => true
    | x :: xs => x.All pf ps && allItems xs
  allFields : List (PyStr × Json) → Bool
    | [] => true
    | (k, x) :: xs => ps k && x.All pf ps && allFields xs

/-- No `NaN` and no infinity: what `allow_nan=False` accepts. -/
def finite (j : Json) : Bool := j.All PyFloat.isFinite fun _ => true

def encodable (j : Json) : Bool := j.All (fun _ => true) PyStr.encodable

/-- Keys are unique at every level, as `json.loads` leaves them. -/
def unique : Json → Bool
  | .list items => uniqueItems items
  | .dict items => decide (items.map (·.1)).Nodup && uniqueFields items
  | _ => true
where
  uniqueItems : List Json → Bool
    | [] => true
    | x :: xs => x.unique && uniqueItems xs
  uniqueFields : List (PyStr × Json) → Bool
    | [] => true
    | (_, x) :: xs => x.unique && uniqueFields xs

/-- `sort_keys=True`, at every level. -/
def sortKeys : Json → Json
  | .list items => .list (sortItems items)
  | .dict items => .dict ((sortFields items).insertionSort fun a b => PyStr.le a.1 b.1)
  | j => j
where
  sortItems : List Json → List Json
    | [] => []
    | x :: xs => x.sortKeys :: sortItems xs
  sortFields : List (PyStr × Json) → List (PyStr × Json)
    | [] => []
    | (k, x) :: xs => (k, x.sortKeys) :: sortFields xs

/-- The number a `bool`, `int` or finite `float` compares as. -/
def number? : Json → Option ℚ
  | .bool b => some (if b then 1 else 0)
  | .int i => some i
  | .float f => f.value?
  | _ => none

/-- `a is b or a == b`, as the items of containers compare; every `NaN` of `json.loads` is one
object. -/
def same : Json → Json → Bool
  | .null, .null => true
  | .str s, .str t => s == t
  | .list xs, .list ys => sameItems xs ys
  | .dict xs, .dict ys => xs.length == ys.length && sameFields xs ys
  | .float f, .float g => f == g || (f.value?.isSome && f.value? == g.value?)
  | .float f, .int j => f.value? == some (j : ℚ)
  | .float f, .bool c => f.value? == (Json.bool c).number?
  | .int i, b => (Json.int i).number? == b.number?
  | .bool b, c => (Json.bool b).number? == c.number?
  | _, _ => false
where
  sameItems : List Json → List Json → Bool
    | [], [] => true
    | x :: xs, y :: ys => x.same y && sameItems xs ys
    | _, _ => false
  sameFields : List (PyStr × Json) → List (PyStr × Json) → Bool
    | [], _ => true
    | (k, x) :: xs, ys =>
      (match Dict.find ys k with
        | some y => x.same y
        | none => false) && sameFields xs ys

/-- `a == b`. -/
def pyEq (a b : Json) : Bool :=
  match a, b with
  | .float .nan, _ => false
  | _, .float .nan => false
  | _, _ => a.same b

/-- `j is None`. -/
def isNull : Json → Bool
  | .null => true
  | _ => false

/-- `bool(j)`. -/
def truthy : Json → Bool
  | .null => false
  | .bool b => b
  | .int i => i != 0
  | .float f => f.value? != some 0
  | .str s => !s.isEmpty
  | .list items => !items.isEmpty
  | .dict items => !items.isEmpty

/-- `type(value).__name__`. -/
def typeName : Json → String
  | null => "NoneType"
  | bool _ => "bool"
  | int _ => "int"
  | float _ => "float"
  | str _ => "str"
  | list _ => "list"
  | dict _ => "dict"

/-- `a or b`. -/
def or (a b : Json) : Json := if a.truthy then a else b

end Json

inductive EncodeError
  | valueError
  | unicodeEncodeError
  | recursionError
  deriving DecidableEq

/-- A `str` bound to a `TEXT` column. -/
structure Utf8Str where
  value : PyStr
  encodable : value.encodable

/-- Binding a `str` to a `TEXT` column. -/
def bindText (s : PyStr) : Except EncodeError Utf8Str :=
  if h : s.encodable then .ok ⟨s, h⟩ else .error .unicodeEncodeError

namespace Json

variable {pf : PyFloat → Bool} {ps : PyStr → Bool}

theorem allFields_eq (l : List (PyStr × Json)) :
    All.allFields pf ps l = l.all fun kv => ps kv.1 && kv.2.All pf ps := by
  induction l with
  | nil => rfl
  | cons kv l ih => simp [All.allFields, ih]

theorem allItems_eq (l : List Json) : All.allItems pf ps l = l.all (·.All pf ps) := by
  induction l with
  | nil => rfl
  | cons x l ih => simp [All.allItems, ih]

mutual

theorem all_sortKeys : ∀ j : Json, j.sortKeys.All pf ps = j.All pf ps
  | .null | .bool _ | .int _ | .float _ | .str _ => rfl
  | .list items => by
    simp only [sortKeys, All]
    exact allItems_sortItems items
  | .dict items => by
    simp only [sortKeys, All]
    rw [← allFields_sortFields items, allFields_eq, allFields_eq]
    exact (List.perm_insertionSort _ _).all_eq

theorem allItems_sortItems : ∀ l : List Json,
    All.allItems pf ps (sortKeys.sortItems l) = All.allItems pf ps l
  | [] => rfl
  | x :: xs => by
    simp only [sortKeys.sortItems, All.allItems]
    rw [all_sortKeys x, allItems_sortItems xs]

theorem allFields_sortFields : ∀ l : List (PyStr × Json),
    All.allFields pf ps (sortKeys.sortFields l) = All.allFields pf ps l
  | [] => rfl
  | (k, x) :: xs => by
    simp only [sortKeys.sortFields, All.allFields]
    rw [all_sortKeys x, allFields_sortFields xs]

end

@[simp] theorem finite_sortKeys (j : Json) : j.sortKeys.finite = j.finite := all_sortKeys j

@[simp] theorem encodable_sortKeys (j : Json) : j.sortKeys.encodable = j.encodable :=
  all_sortKeys j

end Json

/-- The text of `canonical_json`, given by the value `json.loads` reads back from it. -/
structure CanonicalText where
  value : Json
  finite : value.finite

def canonicalJson (j : Json) : Except EncodeError CanonicalText :=
  if h : j.finite then .ok ⟨j.sortKeys, by simpa using h⟩ else .error .valueError

structure Utf8Text extends CanonicalText where
  encodable : value.encodable

def CanonicalText.encode (t : CanonicalText) : Except EncodeError Utf8Text :=
  if h : t.value.encodable then .ok ⟨t, h⟩ else .error .unicodeEncodeError

def dumpText (j : Json) : Except EncodeError Utf8Text := do
  let text ← canonicalJson j
  text.encode

/-- One string for each number, with no character but one. -/
def tallied (k : Nat) : PyStr := (List.replicate k (py "a")).flatten

theorem tallied_injective : Function.Injective tallied := by
  intro k l h
  have hlength : (py "a").length = 1 := rfl
  simpa [tallied, hlength] using congrArg List.length h

theorem notMem_tallied (hc : c ∉ py "a") (k : Nat) : c ∉ tallied k := by
  intro h
  obtain ⟨s, hs, hcs⟩ := List.mem_flatten.mp h
  rw [List.eq_of_mem_replicate hs] at hcs
  exact hc hcs

end PrismPipe.Python
