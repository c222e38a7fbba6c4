import PrismPipe.Lib.Calendar
import PrismPipe.Lib.Numeral
import PrismPipe.Python.Json

/-! `datetime` in UTC, and the order of what `isoformat` writes. -/

namespace PrismPipe.Python

open Calendar

/-- An aware `datetime` with `tzinfo=timezone.utc`. -/
structure DateTime extends Date where
  hour : Nat
  minute : Nat
  second : Nat
  microsecond : Nat
  year_le : year ≤ 9999
  hour_lt : hour < 24
  minute_lt : minute < 60
  second_lt : second < 60
  microsecond_lt : microsecond < 1000000

namespace DateTime

def instant (d : DateTime) : Nat :=
  ((((d.ordinal - 1) * 24 + d.hour) * 60 + d.minute) * 60 + d.second) * 1000000 + d.microsecond

/-- `none` past year 9999. -/
def ofInstant (n : Nat) : Option DateTime :=
  let date := Date.ofOrdinal (n / 86400000000)
  if h : date.year ≤ 9999 then
    some { date with
      hour := n / 3600000000 % 24
      minute := n / 60000000 % 60
      second := n / 1000000 % 60
      microsecond := n % 1000000
      year_le := h
      hour_lt := Nat.mod_lt _ (by decide)
      minute_lt := Nat.mod_lt _ (by decide)
      second_lt := Nat.mod_lt _ (by decide)
      microsecond_lt := Nat.mod_lt _ (by decide) }
  else none

/-- `self + timedelta(microseconds=n)`; `none` is the `OverflowError`. -/
def plus (d : DateTime) (n : Nat) : Option DateTime := ofInstant (d.instant + n)

def digit (k : Nat) : CodePoint := Fin.ofNat _ (0x30 + k)

/-- `f"{k:0nd}"` of a number with at most `n` digits. -/
def pad (n k : Nat) : PyStr := Numeral.padded digit 10 n k

def fraction (microsecond : Nat) : PyStr :=
  if microsecond = 0 then [] else py "." ++ pad 6 microsecond

def isoformat (d : DateTime) : PyStr :=
  pad 4 d.year ++ (py "-" ++ (pad 2 d.month ++ (py "-" ++ (pad 2 d.day ++ (py "T" ++
    (pad 2 d.hour ++ (py ":" ++ (pad 2 d.minute ++ (py ":" ++ (pad 2 d.second ++
      (fraction d.microsecond ++ py "+00:00")))))))))))

variable {d e : DateTime}

theorem instant_ofInstant (h : ofInstant n = some d) : d.instant = n := by
  simp only [ofInstant] at h
  split at h
  · cases h
    simp only [instant, Date.ordinal_ofOrdinal, Nat.add_sub_cancel]
    omega
  · cases h

theorem instant_lt_of_ordinal (h : d.ordinal < e.ordinal) : d.instant < e.instant := by
  have hpos := d.ordinal_pos
  have hhour := d.hour_lt
  have hminute := d.minute_lt
  have hsecond := d.second_lt
  have hmicrosecond := d.microsecond_lt
  unfold instant
  omega

theorem instant_lt_iff_of_ordinal (h : d.ordinal = e.ordinal) : d.instant < e.instant ↔
    d.hour < e.hour ∨ d.hour = e.hour ∧ (d.minute < e.minute ∨ d.minute = e.minute ∧
      (d.second < e.second ∨ d.second = e.second ∧ d.microsecond < e.microsecond)) := by
  have hminute := d.minute_lt
  have hminute' := e.minute_lt
  have hsecond := d.second_lt
  have hsecond' := e.second_lt
  have hmicrosecond := d.microsecond_lt
  have hmicrosecond' := e.microsecond_lt
  unfold instant
  rw [h]
  omega

theorem instant_lt_iff : d.instant < e.instant ↔
    d.year < e.year ∨ d.year = e.year ∧ (d.month < e.month ∨ d.month = e.month ∧
      (d.day < e.day ∨ d.day = e.day ∧ (d.hour < e.hour ∨ d.hour = e.hour ∧
        (d.minute < e.minute ∨ d.minute = e.minute ∧ (d.second < e.second ∨ d.second = e.second ∧
          d.microsecond < e.microsecond))))) := by
  rcases lt_trichotomy d.ordinal e.ordinal with h | h | h
  · refine iff_of_true (instant_lt_of_ordinal h) ?_
    rcases Date.ordinal_lt_iff.mp h with hy | ⟨hy, hm | ⟨hm, hd⟩⟩
    · exact .inl hy
    · exact .inr ⟨hy, .inl hm⟩
    · exact .inr ⟨hy, .inr ⟨hm, .inl hd⟩⟩
  · rw [instant_lt_iff_of_ordinal h]
    have hdate : d.toDate = e.toDate := Date.ordinal_inj.mp h
    simp [hdate]
  · refine iff_of_false (instant_lt_of_ordinal h).not_gt ?_
    rcases Date.ordinal_lt_iff.mp h with hy | ⟨hy, hm | ⟨hm, hd⟩⟩ <;> omega

theorem instant_inj : d.instant = e.instant ↔ d = e := by
  constructor
  · intro h
    have hdate : d.ordinal = e.ordinal := by
      rcases lt_trichotomy d.ordinal e.ordinal with ho | ho | ho
      · exact absurd h (instant_lt_of_ordinal ho).ne
      · exact ho
      · exact absurd h (instant_lt_of_ordinal ho).ne'
    have hlt := (instant_lt_iff_of_ordinal hdate).not.mp h.not_lt
    have hgt := (instant_lt_iff_of_ordinal hdate.symm).not.mp h.not_gt
    have hdate := Date.ordinal_inj.mp hdate
    cases d
    cases e
    simp only [DateTime.mk.injEq] at *
    exact ⟨hdate, by omega⟩
  · rintro rfl
    rfl

/-- Times are ordered as they come. -/
instance : LinearOrder DateTime := LinearOrder.lift' instant fun _ _ => instant_inj.mp

theorem digit_strictMonoOn : StrictMonoOn digit (Set.Iio 10) := by
  intro k hk l hl h
  have hk : k < 10 := hk
  have hl : l < 10 := hl
  change (0x30 + k) % 0x110000 < (0x30 + l) % 0x110000
  omega

theorem pad_lt_iff (hk : k < 10 ^ n) (hl : l < 10 ^ n) (sep s t : PyStr) :
    pad n k ++ (sep ++ s) < pad n l ++ (sep ++ t) ↔ k < l ∨ k = l ∧ s < t := by
  have hsep : sep ++ s < sep ++ t ↔ s < t := by
    simp [Numeral.append_lt_append_iff rfl]
  rw [pad, pad, Numeral.padded_append_lt_iff digit_strictMonoOn hk hl, hsep]

theorem fraction_lt_iff (hk : k < 10 ^ 6) (hl : l < 10 ^ 6) :
    fraction k ++ py "+00:00" < fraction l ++ py "+00:00" ↔ k < l := by
  have hsign : ∀ s : PyStr, py "+00:00" < py "." ++ s := fun s =>
    List.cons_lt_cons_iff.mpr (.inl (by decide))
  by_cases hk0 : k = 0 <;> by_cases hl0 : l = 0
  · simp [hk0, hl0]
  · rw [fraction, if_pos hk0, fraction, if_neg hl0, List.nil_append, List.append_assoc]
    exact iff_of_true (hsign _) (by omega)
  · rw [fraction, if_neg hk0, fraction, if_pos hl0, List.nil_append, List.append_assoc]
    exact iff_of_false (hsign _).not_gt (by omega)
  · have hoffset : pad 6 k ++ py "+00:00" < pad 6 l ++ py "+00:00" ↔
        k < l ∨ k = l ∧ py "+00:00" < py "+00:00" := pad_lt_iff hk hl [] _ _
    rw [fraction, if_neg hk0, fraction, if_neg hl0, List.append_assoc, List.append_assoc,
      Numeral.append_lt_append_iff rfl, hoffset]
    simp

theorem isoformat_lt_iff (d e : DateTime) : d.isoformat < e.isoformat ↔ d.instant < e.instant := by
  have hyear : ∀ d : DateTime, d.year < 10 ^ 4 := fun d => Nat.lt_succ_of_le d.year_le
  have hmonth : ∀ d : DateTime, d.month < 10 ^ 2 := fun d => d.month_le.trans_lt (by decide)
  have hday : ∀ d : DateTime, d.day < 10 ^ 2 := fun d => d.day_le_31.trans_lt (by decide)
  have hhour : ∀ d : DateTime, d.hour < 10 ^ 2 := fun d => d.hour_lt.trans (by decide)
  have hminute : ∀ d : DateTime, d.minute < 10 ^ 2 := fun d => d.minute_lt.trans (by decide)
  have hsecond : ∀ d : DateTime, d.second < 10 ^ 2 := fun d => d.second_lt.trans (by decide)
  have htail : ∀ s t : PyStr, pad 2 d.second ++ s < pad 2 e.second ++ t ↔
      d.second < e.second ∨ d.second = e.second ∧ s < t := pad_lt_iff (hsecond d) (hsecond e) []
  rw [isoformat, isoformat, pad_lt_iff (hyear d) (hyear e), pad_lt_iff (hmonth d) (hmonth e),
    pad_lt_iff (hday d) (hday e), pad_lt_iff (hhour d) (hhour e),
    pad_lt_iff (hminute d) (hminute e), htail,
    fraction_lt_iff d.microsecond_lt e.microsecond_lt, instant_lt_iff]

theorem isoformat_inj (d e : DateTime) : d.isoformat = e.isoformat ↔ d.instant = e.instant := by
  have hlt := isoformat_lt_iff d e
  have hgt := isoformat_lt_iff e d
  constructor
  · intro h
    have hlt' := hlt.not.mp h.not_lt
    have hgt' := hgt.not.mp h.not_gt
    omega
  · intro h
    exact le_antisymm (not_lt.mp (hgt.not.mpr (by omega))) (not_lt.mp (hlt.not.mpr (by omega)))

theorem isoformat_strictMono : StrictMono isoformat := fun d e => (isoformat_lt_iff d e).mpr

def iso : DateTime ↪o PyStr := OrderEmbedding.ofStrictMono isoformat isoformat_strictMono

theorem isoformat_ascii (d : DateTime) : ∀ c ∈ d.isoformat, c.val < 0x80 := by
  have hpad : ∀ n k, ∀ c ∈ pad n k, c.val < 0x80 := by
    intro n k c hc
    obtain ⟨l, hl, rfl⟩ := Numeral.mem_padded (by decide) hc
    change (0x30 + l) % 0x110000 < 0x80
    omega
  have hfraction : ∀ k, ∀ c ∈ fraction k, c.val < 0x80 := by
    intro k c hc
    unfold fraction at hc
    split at hc
    · cases hc
    · rcases List.mem_append.mp hc with hc | hc
      · cases List.mem_singleton.mp hc
        decide
      · exact hpad _ _ c hc
  have hsep : ∀ sep ∈ ["-", ":", "T", "+00:00"], ∀ c ∈ py sep, c.val < 0x80 := by
    intro sep hsep c hc
    have hall : (["-", ":", "T", "+00:00"].all fun sep => (py sep).all fun c => c.val < 0x80) :=
      rfl
    exact of_decide_eq_true (List.all_eq_true.mp (List.all_eq_true.mp hall sep hsep) c hc)
  simp only [isoformat, List.forall_mem_append]
  exact ⟨hpad _ _, hsep "-" (by simp), hpad _ _, hsep "-" (by simp), hpad _ _, hsep "T" (by simp),
    hpad _ _, hsep ":" (by simp), hpad _ _, hsep ":" (by simp), hpad _ _, hfraction _,
    hsep "+00:00" (by simp)⟩

end DateTime

end PrismPipe.Python
