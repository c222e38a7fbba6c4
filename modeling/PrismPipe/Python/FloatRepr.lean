import Mathlib.Data.Int.Log
import Mathlib.Data.List.DropRight
import Mathlib.Data.NNRat.Floor
import PrismPipe.Python.Json

/-! `float.__repr__`: the shortest decimal that `float` reads back. -/

namespace PrismPipe.Python.PyFloat

def roundEven (x : ℚ≥0) : Nat :=
  let rest := x - ⌊x⌋₊
  if 1 < rest + rest ∨ rest + rest = 1 ∧ ⌊x⌋₊ % 2 = 1 then ⌊x⌋₊ + 1 else ⌊x⌋₊

def lastBit (x : ℚ≥0) : Int := max (Int.log 2 x - 52) (-1074)

def nearest (x : ℚ≥0) : ℚ≥0 :=
  let ulp := ((2 : Nat) : ℚ≥0) ^ lastBit x
  roundEven (x / ulp) * ulp

def isDouble : PyFloat → Bool
  | .finite _ m => nearest m = m && m < (2 ^ 1024 : Nat)
  | _ => true

structure Decimal where
  coefficient : Nat
  exponent : Int

def Decimal.value (d : Decimal) : ℚ≥0 := d.coefficient * 10 ^ d.exponent

/-- Of the two decimals around `x` with the exponent, the closest that is read back as `x`. -/
def around (x : ℚ≥0) (exponent : Int) : Option Decimal :=
  let q := ⌊x / 10 ^ exponent⌋₊
  let reads c := nearest (Decimal.value ⟨c, exponent⟩) = x
  let closest := roundEven (x / 10 ^ exponent)
  if reads closest then some ⟨closest, exponent⟩
  else if reads q then some ⟨q, exponent⟩
  else if reads (q + 1) then some ⟨q + 1, exponent⟩
  else none

def shortestFrom (x : ℚ≥0) : Nat → Int → Decimal
  | 0, exponent => ⟨⌊x / 10 ^ exponent⌋₊, exponent⟩
  | tries + 1, exponent => (around x exponent).getD (shortestFrom x tries (exponent - 1))

def shortest (x : ℚ≥0) : Decimal := shortestFrom x (Int.log 10 x + 1075).toNat (Int.log 10 x)

/-- `%+.02d` of the exponent. -/
def writeExponent (e : Int) : List Char :=
  (if e < 0 then '-' else '+') ::
    (if e.natAbs < 10 then '0' :: Nat.toDigits 10 e.natAbs else Nat.toDigits 10 e.natAbs)

/-- Format `r` of the digits of `0.ddd * 10 ** decpt`. -/
def format (digits : List Char) (decpt : Int) : List Char :=
  if decpt ≤ -4 ∨ 16 < decpt then
    digits.take 1 ++ (if 1 < digits.length then '.' :: digits.drop 1 else []) ++
      'e' :: writeExponent (decpt - 1)
  else if decpt ≤ 0 then '0' :: '.' :: (List.replicate (-decpt).toNat '0' ++ digits)
  else if digits.length ≤ decpt then
    digits ++ List.replicate (decpt - digits.length).toNat '0' ++ ['.', '0']
  else digits.take decpt.toNat ++ '.' :: digits.drop decpt.toNat

def Decimal.write (d : Decimal) : List Char :=
  let digits := Nat.toDigits 10 d.coefficient
  format (digits.rdropWhile (· = '0')) (digits.length + d.exponent)

/-- `float.__repr__` of a finite one that is not negative. -/
def magnitudeRepr (x : ℚ≥0) : List Char := if x = 0 then ['0', '.', '0'] else (shortest x).write

/-- `floatstr`. -/
def floatstr : PyFloat → List Char
  | .finite neg m => if neg then '-' :: magnitudeRepr m else magnitudeRepr m
  | .inf neg => if neg then "-Infinity".toList else "Infinity".toList
  | .nan => "NaN".toList

def mantissa (t : List Char) : Decimal :=
  let whole := t.takeWhile (· ≠ '.')
  let fraction := (t.dropWhile (· ≠ '.')).tail
  ⟨Nat.ofDigitChars 10 (whole ++ fraction) 0, -fraction.length⟩

def readExponent : List Char → Int
  | [] => 0
  | c :: digits =>
    if c = '-' then -(Nat.ofDigitChars 10 digits 0 : Int) else Nat.ofDigitChars 10 digits 0

/-- The number a text without sign stands for, which `float` rounds. -/
def read (t : List Char) : ℚ≥0 :=
  let d := mantissa (t.takeWhile (· ≠ 'e'))
  Decimal.value ⟨d.coefficient, d.exponent + readExponent (t.dropWhile (· ≠ 'e')).tail⟩

def isNumeric (c : Char) : Bool := c.isDigit || c = '-' || c = '+' || c = '.' || c = 'e'

theorem isNumeric_of_isDigit {c : Char} (h : c.isDigit) : isNumeric c := by simp [isNumeric, h]

theorem numeric_toDigits (n : Nat) : ∀ c ∈ Nat.toDigits 10 n, isNumeric c :=
  fun _ hc => isNumeric_of_isDigit (Nat.isDigit_of_mem_toDigits (by decide) (by decide) hc)

theorem numeric_replicate (n : Nat) : ∀ c ∈ List.replicate n '0', isNumeric c := by
  intro c hc
  rw [List.eq_of_mem_replicate hc]
  rfl

theorem numeric_writeExponent (e : Int) : ∀ c ∈ writeExponent e, isNumeric c := by
  have hdigits := numeric_toDigits e.natAbs
  rw [writeExponent, List.forall_mem_cons]
  constructor
  · split <;> rfl
  · split
    · exact List.forall_mem_cons.mpr ⟨rfl, hdigits⟩
    · exact hdigits

theorem numeric_format {digits : List Char} (h : ∀ c ∈ digits, isNumeric c) (decpt : Int) :
    ∀ c ∈ format digits decpt, isNumeric c := by
  have htake n : ∀ c ∈ digits.take n, isNumeric c := fun c hc => h c (List.mem_of_mem_take hc)
  have hdrop n : ∀ c ∈ digits.drop n, isNumeric c := fun c hc => h c (List.mem_of_mem_drop hc)
  unfold format
  split
  · rw [List.forall_mem_append, List.forall_mem_append, List.forall_mem_cons]
    refine ⟨⟨htake 1, ?_⟩, rfl, numeric_writeExponent _⟩
    split
    · exact List.forall_mem_cons.mpr ⟨rfl, hdrop 1⟩
    · nofun
  · split
    · rw [List.forall_mem_cons, List.forall_mem_cons, List.forall_mem_append]
      exact ⟨rfl, rfl, numeric_replicate _, h⟩
    · split
      · rw [List.forall_mem_append, List.forall_mem_append]
        exact ⟨⟨h, numeric_replicate _⟩, List.all_eq_true.mp rfl⟩
      · rw [List.forall_mem_append, List.forall_mem_cons]
        exact ⟨htake _, rfl, hdrop _⟩

theorem numeric_magnitudeRepr (x : ℚ≥0) : ∀ c ∈ magnitudeRepr x, isNumeric c := by
  unfold magnitudeRepr
  split
  · exact List.all_eq_true.mp rfl
  · exact numeric_format (fun c hc => numeric_toDigits _ c ((List.rdropWhile_prefix ..).mem hc)) _

theorem point_or_exponent (x : ℚ≥0) : '.' ∈ magnitudeRepr x ∨ 'e' ∈ magnitudeRepr x := by
  unfold magnitudeRepr
  split
  · exact .inl (by decide)
  · unfold Decimal.write format
    dsimp only
    split
    · exact .inr (by simp)
    · left
      split
      · simp
      · split <;> simp

section Reads

variable {x : ℚ≥0}

@[simp] theorem roundEven_natCast (n : Nat) : roundEven n = n := by
  simp [roundEven]

theorem around_eq_some (h : around x e = some d) : nearest d.value = x := by
  unfold around at h
  dsimp only at h
  split at h
  next hreads =>
    cases h
    exact hreads
  split at h
  next hreads =>
    cases h
    exact hreads
  split at h
  next hreads =>
    cases h
    exact hreads
  · cases h

theorem around_exact (h : nearest x = x) (hx : x = Decimal.value ⟨c, e⟩) :
    (around x e).isSome := by
  have hc : x / 10 ^ e = c := by
    rw [hx]
    exact mul_div_cancel_right₀ _ (zpow_ne_zero _ (by decide))
  have hreads : nearest (Decimal.value ⟨c, e⟩) = x := by rw [← hx, h]
  simp [around, hc, hreads]

theorem nearest_shortestFrom {tries : Nat} {e t : Int} (ht : t ≤ e) (he : e < t + tries)
    (h : (around x t).isSome) : nearest (shortestFrom x tries e).value = x := by
  induction tries generalizing e with
  | zero => omega
  | succ tries ih =>
    rw [shortestFrom]
    cases ha : around x e with
    | some d => exact around_eq_some ha
    | none =>
      have hne : t ≠ e := by
        rintro rfl
        rw [ha] at h
        cases h
      rw [Option.getD_none]
      exact ih (by omega) (by omega)

theorem exists_decimal (r : Nat) {e : Int} {n : Nat} (h : -n ≤ e) :
    ∃ c : Nat, (r : ℚ≥0) * ((2 : Nat) : ℚ≥0) ^ e = c * 10 ^ (-n : Int) := by
  obtain ⟨k, rfl⟩ : ∃ k : Nat, e = k - n := ⟨(e + n).toNat, by omega⟩
  refine ⟨r * 2 ^ k * 5 ^ n, ?_⟩
  have hten : (10 : ℚ≥0) ^ n = 2 ^ n * 5 ^ n := by
    rw [← mul_pow]
    norm_num
  rw [zpow_sub₀ (by decide), zpow_neg, zpow_natCast, zpow_natCast, zpow_natCast, hten]
  push_cast
  field_simp

theorem exists_exact (h : nearest x = x) :
    ∃ (c : Nat) (e : Int), -1074 ≤ e ∧ x = Decimal.value ⟨c, e⟩ := by
  obtain ⟨c, hc⟩ := exists_decimal (roundEven (x / ((2 : Nat) : ℚ≥0) ^ lastBit x)) (n := 1074)
    (e := lastBit x) (le_max_right _ _)
  exact ⟨c, _, le_rfl, h.symm.trans hc⟩

theorem nearest_shortest (h : nearest x = x) (hx : x ≠ 0) : nearest (shortest x).value = x := by
  obtain ⟨c, e, he, hc⟩ := exists_exact h
  have hpos : (1 : ℚ≥0) ≤ c := by
    refine Nat.one_le_cast.mpr (Nat.one_le_iff_ne_zero.mpr ?_)
    rintro rfl
    exact hx (by rw [hc]; simp [Decimal.value])
  have hle : ((10 : Nat) : ℚ≥0) ^ e ≤ x := by
    rw [hc]
    exact le_mul_of_one_le_left zero_le hpos
  have hlog : e ≤ Int.log 10 x :=
    (Int.zpow_le_iff_le_log (by decide) (pos_iff_ne_zero.mpr hx)).mp hle
  rw [shortest]
  exact nearest_shortestFrom hlog (by omega) (around_exact h hc)

end Reads

theorem Decimal.value_shift (c k : Nat) (e : Int) :
    Decimal.value ⟨10 ^ k * c, e⟩ = Decimal.value ⟨c, k + e⟩ := by
  simp only [Decimal.value]
  rw [zpow_add₀ (by decide), zpow_natCast]
  push_cast
  ring

section Split

variable {c : Char} {t : List Char} (h : c ∉ t)
include h

theorem ne_of_mem : ∀ d ∈ t, decide (d ≠ c) = true :=
  fun _ hd => decide_eq_true fun he => h (he ▸ hd)

theorem takeWhile_ne : t.takeWhile (· ≠ c) = t := List.takeWhile_eq_self_iff.mpr (ne_of_mem h)

theorem dropWhile_ne : t.dropWhile (· ≠ c) = [] := List.dropWhile_eq_nil_iff.mpr (ne_of_mem h)

theorem takeWhile_append_ne (s : List Char) : (t ++ c :: s).takeWhile (· ≠ c) = t := by
  rw [List.takeWhile_append_of_pos (ne_of_mem h)]
  simp

theorem dropWhile_append_ne (s : List Char) : (t ++ c :: s).dropWhile (· ≠ c) = c :: s := by
  rw [List.dropWhile_append_of_pos (ne_of_mem h)]
  simp

end Split

theorem mantissa_point (h : '.' ∉ whole) (fraction : List Char) :
    mantissa (whole ++ '.' :: fraction) =
      ⟨Nat.ofDigitChars 10 (whole ++ fraction) 0, -fraction.length⟩ := by
  rw [mantissa, takeWhile_append_ne h, dropWhile_append_ne h, List.tail_cons]

theorem mantissa_whole (h : '.' ∉ whole) : mantissa whole = ⟨Nat.ofDigitChars 10 whole 0, 0⟩ := by
  rw [mantissa, takeWhile_ne h, dropWhile_ne h, List.tail_nil, List.append_nil]
  rfl

theorem read_fixed (h : 'e' ∉ t) : read t = (mantissa t).value := by
  rw [read, takeWhile_ne h, dropWhile_ne h, List.tail_nil, readExponent, add_zero]

theorem read_exponent (h : 'e' ∉ t) (e : List Char) : read (t ++ 'e' :: e) =
    Decimal.value ⟨(mantissa t).coefficient, (mantissa t).exponent + readExponent e⟩ := by
  rw [read, takeWhile_append_ne h, dropWhile_append_ne h, List.tail_cons]

theorem readExponent_writeExponent (e : Int) : readExponent (writeExponent e) = e := by
  have hdigits : Nat.ofDigitChars 10 (if e.natAbs < 10 then '0' :: Nat.toDigits 10 e.natAbs
      else Nat.toDigits 10 e.natAbs) 0 = e.natAbs := by
    split
    · rw [Nat.ofDigitChars_cons]
      exact Nat.ofDigitChars_toDigits (by decide) (by decide)
    · exact Nat.ofDigitChars_toDigits (by decide) (by decide)
  rw [writeExponent, readExponent, hdigits]
  by_cases he : e < 0
  · rw [if_pos he, if_pos rfl]
    omega
  · rw [if_neg he, if_neg (by decide)]
    omega

section Format

variable {digits : List Char} (h : ∀ c ∈ digits, c.isDigit)
include h

theorem notMem_digits {c : Char} (hc : ¬ c.isDigit) : c ∉ digits := fun hm => hc (h c hm)

theorem read_scientific (hne : digits ≠ []) (e : Int) :
    read (digits.take 1 ++ (if 1 < digits.length then '.' :: digits.drop 1 else []) ++
      'e' :: writeExponent e) =
      Decimal.value ⟨Nat.ofDigitChars 10 digits 0, e + 1 - digits.length⟩ := by
  obtain ⟨d, rest, rfl⟩ := List.exists_cons_of_ne_nil hne
  have he : 'e' ∉ d :: rest := notMem_digits h (by decide)
  have hpoint : '.' ∉ [d] := fun hm =>
    notMem_digits h (by decide) (List.mem_cons.mpr (.inl (List.mem_singleton.mp hm)))
  cases rest with
  | nil =>
    simp only [List.take_succ_cons, List.take_zero, List.length_singleton, lt_irrefl, if_false,
      List.append_nil]
    rw [read_exponent he, mantissa_whole hpoint, readExponent_writeExponent]
    simp
  | cons d' rest =>
    have hm : 'e' ∉ [d] ++ '.' :: d' :: rest := by simpa using he
    simp only [List.take_succ_cons, List.take_zero, List.length_cons, List.drop_succ_cons,
      List.drop_zero, Nat.lt_add_left_iff_pos, Nat.zero_lt_succ, if_true]
    rw [read_exponent hm, mantissa_point hpoint, readExponent_writeExponent]
    simp only [List.singleton_append, List.length_cons]
    congr 2
    push_cast
    ring

theorem read_small {decpt : Int} (hdecpt : decpt ≤ 0) :
    read ('0' :: '.' :: (List.replicate (-decpt).toNat '0' ++ digits)) =
      Decimal.value ⟨Nat.ofDigitChars 10 digits 0, decpt - digits.length⟩ := by
  have he : 'e' ∉ ['0'] ++ '.' :: (List.replicate (-decpt).toNat '0' ++ digits) := by
    have := notMem_digits h (c := 'e') (by decide)
    simp [this]
  have hvalue : Nat.ofDigitChars 10 (['0'] ++ (List.replicate (-decpt).toNat '0' ++ digits)) 0 =
      Nat.ofDigitChars 10 digits 0 := by
    rw [Nat.ofDigitChars_append, Nat.ofDigitChars_append]
    simp [Nat.ofDigitChars_cons]
  have hlength : -((List.replicate (-decpt).toNat '0' ++ digits).length : Int) =
      decpt - digits.length := by
    rw [List.length_append, List.length_replicate]
    omega
  rw [← List.singleton_append, read_fixed he, mantissa_point (by decide), hvalue, hlength]

theorem read_whole {decpt : Int} (hdecpt : digits.length ≤ decpt) :
    read (digits ++ List.replicate (decpt - digits.length).toNat '0' ++ ['.', '0']) =
      Decimal.value ⟨Nat.ofDigitChars 10 digits 0, decpt - digits.length⟩ := by
  obtain ⟨k, rfl⟩ : ∃ k : Nat, decpt = digits.length + k :=
    ⟨(decpt - digits.length).toNat, by omega⟩
  rw [add_sub_cancel_left, Int.toNat_natCast]
  have hzeros (c : Char) (hc : ¬ c.isDigit) : c ∉ digits ++ List.replicate k '0' := by
    intro hm
    rcases List.mem_append.mp hm with hm | hm
    · exact notMem_digits h hc hm
    · exact hc (List.eq_of_mem_replicate hm ▸ rfl)
  have he : 'e' ∉ digits ++ List.replicate k '0' ++ '.' :: ['0'] := by
    have := hzeros 'e' (by decide)
    simp_all
  have hvalue : Nat.ofDigitChars 10 (digits ++ List.replicate k '0' ++ ['0']) 0 =
      10 ^ (k + 1) * Nat.ofDigitChars 10 digits 0 := by
    rw [List.append_assoc, ← List.replicate_succ', Nat.ofDigitChars_append,
      Nat.ofDigitChars_replicate_zero]
  rw [read_fixed he, mantissa_point (hzeros '.' (by decide)), hvalue, Decimal.value_shift]
  congr 2
  simp

theorem read_point {n : Nat} (hn : n ≤ digits.length) :
    read (digits.take n ++ '.' :: digits.drop n) =
      Decimal.value ⟨Nat.ofDigitChars 10 digits 0, n - digits.length⟩ := by
  have htake (c : Char) (hc : ¬ c.isDigit) : c ∉ digits.take n :=
    fun hm => notMem_digits h hc (List.mem_of_mem_take hm)
  have hdrop (c : Char) (hc : ¬ c.isDigit) : c ∉ digits.drop n :=
    fun hm => notMem_digits h hc (List.mem_of_mem_drop hm)
  have he : 'e' ∉ digits.take n ++ '.' :: digits.drop n := by
    simp [htake 'e' (by decide), hdrop 'e' (by decide)]
  rw [read_fixed he, mantissa_point (htake '.' (by decide)), List.take_append_drop,
    List.length_drop]
  congr 2
  omega

theorem read_format (hne : digits ≠ []) (decpt : Int) : read (format digits decpt) =
    Decimal.value ⟨Nat.ofDigitChars 10 digits 0, decpt - digits.length⟩ := by
  unfold format
  split
  · rw [read_scientific h hne, sub_add_cancel]
  · split
    next hdecpt => exact read_small h hdecpt
    next hpos =>
    split
    next hdecpt => exact read_whole h hdecpt
    next hlt =>
      obtain ⟨n, rfl⟩ := Int.eq_ofNat_of_zero_le (Int.le_of_lt (not_le.mp hpos))
      exact read_point h (by omega)

end Format

/-- What `Decimal.write` keeps of the digits. -/
structure Stripped (c : Nat) (digits : List Char) (zeros : Nat) : Prop where
  toDigits : Nat.toDigits 10 c = digits ++ List.replicate zeros '0'
  value : c = 10 ^ zeros * Nat.ofDigitChars 10 digits 0
  isDigit : ∀ a ∈ digits, a.isDigit
  ne_nil : c ≠ 0 → digits ≠ []

theorem exists_stripped (c : Nat) :
    ∃ zeros, Stripped c ((Nat.toDigits 10 c).rdropWhile (· = '0')) zeros := by
  let digits := (Nat.toDigits 10 c).rdropWhile (· = '0')
  let zeros := (Nat.toDigits 10 c).rtakeWhile (· = '0')
  have hzeros : zeros = List.replicate zeros.length '0' :=
    List.eq_replicate_of_mem fun a ha => by simpa using List.mem_rtakeWhile_imp ha
  have hsplit : Nat.toDigits 10 c = digits ++ List.replicate zeros.length '0' := by
    rw [← hzeros, List.rdropWhile_append_rtakeWhile]
  have hvalue : c = 10 ^ zeros.length * Nat.ofDigitChars 10 digits 0 := by
    rw [← Nat.ofDigitChars_replicate_zero, ← Nat.ofDigitChars_append, ← hsplit,
      Nat.ofDigitChars_toDigits (by decide) (by decide)]
  refine ⟨zeros.length, hsplit, hvalue, fun a ha => ?_, fun hc hnil => ?_⟩
  · exact Nat.isDigit_of_mem_toDigits (by decide) (by decide) ((List.rdropWhile_prefix ..).mem ha)
  · have hnil : digits = [] := hnil
    rw [hnil] at hvalue
    exact hc (by simpa using hvalue)

theorem Decimal.read_write {d : Decimal} (hd : d.coefficient ≠ 0) : read d.write = d.value := by
  obtain ⟨c, e⟩ := d
  obtain ⟨zeros, h⟩ := exists_stripped c
  have hdecpt : ((Nat.toDigits 10 c).length : Int) + e -
      ((Nat.toDigits 10 c).rdropWhile (· = '0')).length = zeros + e := by
    nth_rewrite 1 [h.toDigits]
    rw [List.length_append, List.length_replicate]
    push_cast
    ring
  rw [Decimal.write, read_format h.isDigit (h.ne_nil hd), hdecpt, ← Decimal.value_shift, ← h.value]

theorem shortest_ne_zero {x : ℚ≥0} (h : nearest x = x) (hx : x ≠ 0) :
    (shortest x).coefficient ≠ 0 := by
  intro hc
  have hs := nearest_shortest h hx
  rw [Decimal.value, hc] at hs
  exact hx (by simpa [nearest, roundEven] using hs.symm)

theorem nearest_read {x : ℚ≥0} (h : nearest x = x) : nearest (read (magnitudeRepr x)) = x := by
  unfold magnitudeRepr
  split
  next hx =>
    have hzero : read (['0'] ++ '.' :: ['0']) = 0 := by
      rw [read_fixed (by decide), mantissa_point (by decide)]
      simp [Decimal.value, Nat.ofDigitChars_cons]
    subst hx
    exact (congrArg nearest hzero).trans h
  next hx => rw [Decimal.read_write (shortest_ne_zero h hx), nearest_shortest h hx]

theorem head_format {digits : List Char} (h : ∀ c ∈ digits, c.isDigit) (hne : digits ≠ [])
    (decpt : Int) : ∃ c t, format digits decpt = c :: t ∧ c.isDigit := by
  obtain ⟨d, rest, rfl⟩ := List.exists_cons_of_ne_nil hne
  have hd := h d List.mem_cons_self
  unfold format
  split
  · exact ⟨d, _, rfl, hd⟩
  · split
    · exact ⟨'0', _, rfl, rfl⟩
    next hpos =>
    split
    · exact ⟨d, _, rfl, hd⟩
    · obtain ⟨n, hn⟩ : ∃ n, decpt.toNat = n + 1 := ⟨decpt.toNat - 1, by omega⟩
      rw [hn]
      exact ⟨d, _, rfl, hd⟩

theorem head_magnitudeRepr {x : ℚ≥0} (h : nearest x = x) :
    ∃ c t, magnitudeRepr x = c :: t ∧ c.isDigit := by
  unfold magnitudeRepr
  split
  · exact ⟨'0', _, rfl, rfl⟩
  next hx =>
    obtain ⟨zeros, hs⟩ := exists_stripped (shortest x).coefficient
    exact head_format hs.isDigit (hs.ne_nil (shortest_ne_zero h hx)) _

theorem nearest_of_isDouble (h : isDouble (.finite neg m)) : nearest m = m := by
  simp only [isDouble, Bool.and_eq_true, decide_eq_true_eq] at h
  exact h.1

theorem numeric_finite (neg : Bool) (m : ℚ≥0) : ∀ c ∈ floatstr (.finite neg m), isNumeric c := by
  rw [floatstr]
  split
  · exact List.forall_mem_cons.mpr ⟨rfl, numeric_magnitudeRepr m⟩
  · exact numeric_magnitudeRepr m

theorem minus_ne_magnitudeRepr {x : ℚ≥0} (h : nearest x = x) (t : List Char) :
    '-' :: t ≠ magnitudeRepr x := by
  obtain ⟨c, t', hc, hdigit⟩ := head_magnitudeRepr h
  intro ht
  rw [hc] at ht
  rw [← (List.cons.inj ht).1] at hdigit
  cases hdigit

theorem finite_inj {neg neg' : Bool} {m m' : ℚ≥0} (hm : nearest m = m) (hm' : nearest m' = m')
    (h : floatstr (.finite neg m) = floatstr (.finite neg' m')) : neg = neg' ∧ m = m' := by
  have heq (h : magnitudeRepr m = magnitudeRepr m') : m = m' := by
    rw [← nearest_read hm, h, nearest_read hm']
  cases neg with
  | false =>
    cases neg' with
    | false => exact ⟨rfl, heq h⟩
    | true => exact absurd h.symm (minus_ne_magnitudeRepr hm _)
  | true =>
    cases neg' with
    | false => exact absurd h (minus_ne_magnitudeRepr hm' _)
    | true => exact ⟨rfl, heq (List.cons.inj h).2⟩

theorem floatstr_inj {f g : PyFloat} (hf : f.isDouble) (hg : g.isDouble)
    (h : f.floatstr = g.floatstr) : f = g := by
  have hne {neg m t} (hf : floatstr (.finite neg m) = t) (ht : t.all isNumeric = false) : False :=
    Bool.false_ne_true (ht.symm.trans (List.all_eq_true.mpr (hf ▸ numeric_finite neg m)))
  cases f with
  | finite neg m =>
    cases g with
    | finite neg' m' =>
      obtain ⟨rfl, rfl⟩ := finite_inj (nearest_of_isDouble hf) (nearest_of_isDouble hg) h
      rfl
    | inf neg' => exact (hne h (by cases neg' <;> rfl)).elim
    | nan => exact (hne h rfl).elim
  | inf neg =>
    cases g with
    | finite neg' m' => exact (hne h.symm (by cases neg <;> rfl)).elim
    | inf neg' =>
      have hneg : ∀ neg neg', floatstr (.inf neg) = floatstr (.inf neg') → neg = neg' := by decide
      rw [hneg neg neg' h]
    | nan => cases neg <;> exact absurd h (by decide)
  | nan =>
    cases g with
    | finite neg' m' => exact (hne h.symm rfl).elim
    | inf neg' => cases neg' <;> exact absurd h (by decide)
    | nan => rfl

def isWord (c : Char) : Bool := c.isAlphanum || c = '-' || c = '+' || c = '.'

theorem isWord_of_isNumeric {c : Char} (h : isNumeric c) : isWord c := by
  simp only [isNumeric, Bool.or_eq_true, decide_eq_true_eq] at h
  obtain (((h | rfl) | rfl) | rfl) | rfl := h
  · simp [isWord, Char.isAlphanum, h]
  all_goals rfl

theorem word_floatstr (f : PyFloat) : ∀ c ∈ f.floatstr, isWord c := by
  cases f with
  | finite neg m => exact fun c hc => isWord_of_isNumeric (numeric_finite neg m c hc)
  | inf neg => cases neg <;> exact List.all_eq_true.mp rfl
  | nan => exact List.all_eq_true.mp rfl

end PrismPipe.Python.PyFloat
