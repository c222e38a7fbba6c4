import Mathlib.Algebra.Order.Group.Nat
import Mathlib.Tactic.IntervalCases

/-! The proleptic Gregorian calendar: the days of months and years, and the number of a day, which
counts them one by one from the first of January of year 1. -/

namespace PrismPipe.Calendar

def isLeap (year : Nat) : Bool := year % 4 = 0 && (year % 100 ≠ 0 || year % 400 = 0)

def daysInMonth (year : Nat) : Nat → Nat
  | 1 => 31
  | 2 => if isLeap year then 29 else 28
  | 3 => 31
  | 4 => 30
  | 5 => 31
  | 6 => 30
  | 7 => 31
  | 8 => 31
  | 9 => 30
  | 10 => 31
  | 11 => 30
  | 12 => 31
  | _ => 0

def daysBeforeMonth (year : Nat) : Nat → Nat
  | 0 => 0
  | month + 1 => daysBeforeMonth year month + daysInMonth year month

def daysInYear (year : Nat) : Nat := if isLeap year then 366 else 365

def daysBeforeYear (year : Nat) : Nat :=
  let y := year - 1
  y * 365 + y / 4 - y / 100 + y / 400

structure Date where
  year : Nat
  month : Nat
  day : Nat
  year_pos : 1 ≤ year
  month_pos : 1 ≤ month
  month_le : month ≤ 12
  day_pos : 1 ≤ day
  day_le : day ≤ daysInMonth year month

def Date.ordinal (d : Date) : Nat := daysBeforeYear d.year + daysBeforeMonth d.year d.month + d.day

theorem daysBeforeMonth_year (year : Nat) : daysBeforeMonth year 13 = daysInYear year := by
  simp only [daysBeforeMonth, daysInMonth, daysInYear]
  split <;> rfl

theorem div_succ (y k : Nat) : (y + 1) / k = y / k + if (y + 1) % k = 0 then 1 else 0 := by
  rw [Nat.succ_div]
  simp only [Nat.dvd_iff_mod_eq_zero]

theorem daysInYear_eq (year : Nat) : daysInYear year + (if year % 100 = 0 then 1 else 0) =
    365 + (if year % 4 = 0 then 1 else 0) + if year % 400 = 0 then 1 else 0 := by
  simp only [daysInYear, isLeap, Bool.and_eq_true, Bool.or_eq_true, decide_eq_true_eq]
  by_cases h400 : year % 400 = 0
  · have h100 : year % 100 = 0 := by omega
    have h4 : year % 4 = 0 := by omega
    simp [h400, h100, h4]
  · by_cases h100 : year % 100 = 0
    · have h4 : year % 4 = 0 := by omega
      simp [h400, h100, h4]
    · by_cases h4 : year % 4 = 0 <;> simp [h400, h100, h4]

theorem daysBeforeYear_succ (h : 1 ≤ year) :
    daysBeforeYear (year + 1) = daysBeforeYear year + daysInYear year := by
  obtain ⟨y, rfl⟩ := Nat.exists_eq_add_of_le' h
  have hyear := daysInYear_eq (y + 1)
  have h4 := div_succ y 4
  have h100 := div_succ y 100
  have h400 := div_succ y 400
  have hle : y / 100 ≤ y / 4 := Nat.div_le_div_left (by decide) (by decide)
  simp only [daysBeforeYear, Nat.add_sub_cancel]
  generalize (if (y + 1) % 100 = 0 then 1 else 0) = a at hyear h100
  generalize (if (y + 1) % 4 = 0 then 1 else 0) = b at hyear h4
  generalize (if (y + 1) % 400 = 0 then 1 else 0) = c at hyear h400
  have hle' : (y + 1) / 100 ≤ (y + 1) / 4 := Nat.div_le_div_left (by decide) (by decide)
  omega

theorem daysBeforeMonth_mono (year : Nat) (h : month < month') :
    daysBeforeMonth year month + daysInMonth year month ≤ daysBeforeMonth year month' := by
  induction month', h using Nat.le_induction with
  | base => exact le_rfl
  | succ m _ ih => exact ih.trans (Nat.le_add_right _ _)

theorem daysBeforeYear_mono (hpos : 1 ≤ year) (h : year < year') :
    daysBeforeYear year + daysInYear year ≤ daysBeforeYear year' := by
  induction year', h using Nat.le_induction with
  | base => rw [daysBeforeYear_succ hpos]
  | succ y hy ih =>
    rw [daysBeforeYear_succ (by omega)]
    exact ih.trans (Nat.le_add_right _ _)

theorem daysInMonth_pos (year : Nat) (h : 1 ≤ month) (h' : month ≤ 12) :
    1 ≤ daysInMonth year month := by
  interval_cases month
  case «2» =>
    simp only [daysInMonth]
    split <;> decide
  all_goals exact Nat.le_add_left 1 _

namespace Date

variable {d e : Date}

theorem ordinal_le (d : Date) : d.ordinal ≤ daysBeforeYear d.year + daysInYear d.year := by
  have hmonth := daysBeforeMonth_mono d.year (Nat.lt_succ_of_le d.month_le)
  rw [daysBeforeMonth_year] at hmonth
  have hday := d.day_le
  unfold ordinal
  omega

theorem ordinal_lt_of_year (h : d.year < e.year) : d.ordinal < e.ordinal := by
  have hle := d.ordinal_le
  have hyear := daysBeforeYear_mono d.year_pos h
  have hday := e.day_pos
  unfold ordinal at *
  omega

theorem ordinal_lt_of_month (hyear : d.year = e.year) (h : d.month < e.month) :
    d.ordinal < e.ordinal := by
  have hmonth := daysBeforeMonth_mono d.year h
  have hle := d.day_le
  have hday := e.day_pos
  unfold ordinal
  rw [← hyear]
  omega

theorem ordinal_lt_iff : d.ordinal < e.ordinal ↔
    d.year < e.year ∨ d.year = e.year ∧
      (d.month < e.month ∨ d.month = e.month ∧ d.day < e.day) := by
  rcases lt_trichotomy d.year e.year with hy | hy | hy
  · exact iff_of_true (ordinal_lt_of_year hy) (.inl hy)
  · rcases lt_trichotomy d.month e.month with hm | hm | hm
    · exact iff_of_true (ordinal_lt_of_month hy hm) (.inr ⟨hy, .inl hm⟩)
    · simp [ordinal, hy, hm]
    · have := ordinal_lt_of_month hy.symm hm
      omega
  · have := ordinal_lt_of_year hy
    omega

theorem ordinal_inj : d.ordinal = e.ordinal ↔ d = e := by
  constructor
  · intro h
    have hlt := ordinal_lt_iff.not.mp h.not_lt
    have hgt := ordinal_lt_iff.not.mp h.not_gt
    cases d
    cases e
    simp only [Date.mk.injEq] at *
    omega
  · rintro rfl
    rfl

def tomorrow (d : Date) : Date :=
  if h : d.day < daysInMonth d.year d.month then
    { d with
      day := d.day + 1
      day_pos := Nat.le_add_left 1 _
      day_le := h }
  else if h : d.month < 12 then
    { d with
      month := d.month + 1
      day := 1
      month_pos := Nat.le_add_left 1 _
      month_le := h
      day_pos := le_rfl
      day_le := daysInMonth_pos _ (Nat.le_add_left 1 _) h }
  else
    { year := d.year + 1
      month := 1
      day := 1
      year_pos := Nat.le_add_left 1 _
      month_pos := le_rfl
      month_le := Nat.le_add_left 1 11
      day_pos := le_rfl
      day_le := daysInMonth_pos _ le_rfl (Nat.le_add_left 1 11) }

theorem ordinal_tomorrow (d : Date) : d.tomorrow.ordinal = d.ordinal + 1 := by
  have hday := d.day_le
  unfold tomorrow
  split
  · rfl
  · split
    · simp only [ordinal, daysBeforeMonth]
      omega
    · have hmonth : d.month = 12 := by
        have := d.month_le
        omega
      have hyear := daysBeforeMonth_year d.year
      rw [daysBeforeMonth] at hyear
      simp only [ordinal, daysBeforeYear_succ d.year_pos, hmonth] at *
      simp only [daysBeforeMonth, daysInMonth] at *
      omega

def first : Date := ⟨1, 1, 1, le_rfl, le_rfl, Nat.le_add_left 1 11, le_rfl,
  daysInMonth_pos _ le_rfl (Nat.le_add_left 1 11)⟩

/-- The day with `n` days before it. -/
def ofOrdinal : Nat → Date
  | 0 => first
  | n + 1 => (ofOrdinal n).tomorrow

@[simp] theorem ordinal_ofOrdinal (n : Nat) : (ofOrdinal n).ordinal = n + 1 := by
  induction n with
  | zero => rfl
  | succ n ih => rw [ofOrdinal, ordinal_tomorrow, ih]

theorem ordinal_pos (d : Date) : 1 ≤ d.ordinal := d.day_pos.trans (Nat.le_add_left _ _)

theorem day_le_31 (d : Date) : d.day ≤ 31 := by
  refine d.day_le.trans ?_
  unfold daysInMonth
  split <;> (try split) <;> decide

end Date

end PrismPipe.Calendar
