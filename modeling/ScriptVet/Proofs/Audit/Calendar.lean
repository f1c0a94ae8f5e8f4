import Mathlib.Algebra.Order.BigOperators.Group.List
import Mathlib.Algebra.Order.Group.Nat
import ScriptVet.Audit.Timestamp

namespace ScriptVet.Audit.Calendar

def yearLength (year : Nat) : Nat := if isLeap year then 366 else 365

/-- Every fourth year has a further day, but of the centuries only every fourth. -/
theorem yearLength_eq (year : Nat) :
    yearLength year =
      365 + (if 4 ∣ year then 1 else 0) - (if 100 ∣ year then 1 else 0) +
        (if 400 ∣ year then 1 else 0) := by
  have hcentury : 100 ∣ year → 4 ∣ year := Nat.dvd_trans (by decide)
  have hcycle : 400 ∣ year → 100 ∣ year := Nat.dvd_trans (by decide)
  by_cases h4 : 4 ∣ year
  · by_cases h100 : 100 ∣ year
    · by_cases h400 : 400 ∣ year <;>
        simp [yearLength, isLeap, ← Nat.dvd_iff_mod_eq_zero, h4, h100, h400]
    · simp [yearLength, isLeap, ← Nat.dvd_iff_mod_eq_zero, h4, h100, mt hcycle h100]
  · have h100 : ¬100 ∣ year := mt hcentury h4
    simp [yearLength, isLeap, ← Nat.dvd_iff_mod_eq_zero, h4, h100, mt hcycle h100]

/-- The first days of two years that follow each other are as far apart as the first year is long. -/
theorem daysBefore_succ {year : Nat} (h : 1 ≤ year) :
    daysBefore (year + 1) = daysBefore year + yearLength year := by
  obtain ⟨n, rfl⟩ : ∃ n, year = n + 1 := Nat.exists_eq_add_of_le' h
  have hfours : n / 100 ≤ n / 4 := Nat.div_le_div_left (by decide) (by decide)
  have hlate : (if 100 ∣ n + 1 then 1 else 0) ≤ 1 := by split <;> decide
  rw [daysBefore, daysBefore, yearLength_eq, Nat.add_sub_cancel, Nat.add_sub_cancel,
    Nat.succ_div, Nat.succ_div, Nat.succ_div]
  omega

theorem daysBefore_mono {year later : Nat} (hyear : 1 ≤ year) (h : year ≤ later) :
    daysBefore year ≤ daysBefore later := by
  induction later, h using Nat.le_induction with
  | base => exact Nat.le_refl _
  | succ later hle ih =>
    rw [daysBefore_succ (Nat.le_trans hyear hle)]
    exact Nat.le_trans ih (Nat.le_add_right _ _)

/-- The parts of a cycle of 400 years add up to the days before the year. -/
theorem daysBefore_cycle (cycles : Nat) {centuries fours years : Nat} (hc : centuries ≤ 3) (hf : fours ≤ 24)
    (hy : years ≤ 3) :
    daysBefore (400 * cycles + 100 * centuries + 4 * fours + years + 1) =
      146097 * cycles + 36524 * centuries + 1461 * fours + 365 * years := by
  rw [daysBefore]
  omega

theorem yearLength_of_leap {year : Nat} (h4 : 4 ∣ year) (h : ¬100 ∣ year ∨ 400 ∣ year) :
    yearLength year = 366 := by
  rw [yearLength, if_pos]
  simpa [isLeap, ← Nat.dvd_iff_mod_eq_zero, h4] using h

theorem le_yearLength (year : Nat) : 365 ≤ yearLength year := by
  rw [yearLength]
  split <;> decide

/-- The parts that are taken off leave a day of the year that they add up to. -/
theorem yearAndDay_spec (days : Nat) :
    1 ≤ (yearAndDay days).1 ∧ daysBefore (yearAndDay days).1 + (yearAndDay days).2 = days ∧
    (yearAndDay days).2 < yearLength (yearAndDay days).1 := by
  let cycle := days % 146097
  let centuries := min (cycle / 36524) 3
  let century := cycle - 36524 * centuries
  let fours := century / 1461
  let four := century % 1461
  let years := min (four / 365) 3
  let year := 400 * (days / 146097) + 100 * centuries + 4 * fours + years + 1
  have hcentury : centuries ≤ 3 ∧ 36524 * centuries + century = cycle ∧
      century ≤ 36524 ∧ (century = 36524 → centuries = 3) := by omega
  have hfour : fours ≤ 24 ∧ 1461 * fours + four = century ∧ four ≤ 1460 := by omega
  have hyears : years ≤ 3 ∧ 365 * years ≤ four ∧ (365 ≤ four - 365 * years → four = 1460 ∧ years = 3) := by
    omega
  have hbefore := daysBefore_cycle (days / 146097) hcentury.1 hfour.1 hyears.1
  have hresult : yearAndDay days = (year, four - 365 * years) := rfl
  rw [hresult]
  refine ⟨Nat.le_add_left 1 _, ?_, ?_⟩
  · calc daysBefore year + (four - 365 * years)
        = 146097 * (days / 146097) + 36524 * centuries + 1461 * fours + 365 * years +
            (four - 365 * years) := by rw [hbefore]
      _ = days := by omega
  · by_cases hlast : four - 365 * years < 365
    · exact Nat.lt_of_lt_of_le hlast (le_yearLength year)
    · -- the last day of four years that are a day longer, so the fourth of them is a leap year
      obtain ⟨hfull, hfourth⟩ := hyears.2.2 (Nat.le_of_not_lt hlast)
      have hyear : year = 400 * (days / 146097) + 100 * centuries + 4 * fours + 4 := by omega
      have hleap : ¬100 ∣ year ∨ 400 ∣ year := by omega
      rw [yearLength_of_leap (by omega) hleap]
      omega

/-- The days of all months together. -/
def total (lengths : List Nat) : Nat := lengths.foldr (· + ·) 0

theorem total_monthLengths (year : Nat) : total (monthLengths year) = yearLength year := by
  rw [monthLengths, yearLength]
  split <;> rfl

/-- The days in front of the `n`th month, where the months have the given lengths. -/
def daysInFront (lengths : List Nat) (n : Nat) : Nat := total (lengths.take n)

theorem daysInFront_add {lengths : List Nat} {n length : Nat} (h : lengths[n]? = some length) :
    daysInFront lengths n + length = daysInFront lengths (n + 1) := by
  obtain ⟨hn, rfl⟩ := List.getElem?_eq_some_iff.mp h
  simp only [daysInFront, total, ← List.sum_eq_foldr]
  exact (List.sum_take_succ lengths n hn).symm

theorem daysInFront_mono (lengths : List Nat) {m n : Nat} (h : m ≤ n) :
    daysInFront lengths m ≤ daysInFront lengths n := by
  simp only [daysInFront, total, ← List.sum_eq_foldr]
  exact List.monotone_sum_take lengths h

theorem daysInFront_le (lengths : List Nat) (n : Nat) : daysInFront lengths n ≤ total lengths := by
  have h := daysInFront_mono lengths (Nat.le_max_left n lengths.length)
  rwa [daysInFront, daysInFront, List.take_of_length_le (Nat.le_max_right _ _)] at h

/-- The months in front are taken off, until the day is one of the month. -/
theorem monthAndDay_spec {lengths : List Nat} {day : Nat} (h : day < total lengths) (month : Nat) :
    ∃ n length, (monthAndDay month lengths day).1 = month + n ∧ lengths[n]? = some length ∧
      1 ≤ (monthAndDay month lengths day).2 ∧ (monthAndDay month lengths day).2 ≤ length ∧
      daysInFront lengths n + ((monthAndDay month lengths day).2 - 1) = day := by
  induction lengths generalizing day month with
  | nil => exact absurd h (Nat.not_lt_zero day)
  | cons length rest ih =>
    rw [monthAndDay]
    by_cases hday : day < length
    · rw [if_pos hday]
      exact ⟨0, length, rfl, rfl, Nat.le_add_left 1 day, hday, Nat.zero_add day⟩
    · rw [if_neg hday]
      rw [total, List.foldr_cons, ← total] at h
      have hrest : day - length < total rest := by omega
      obtain ⟨n, found, hmonth, hfound, hfirst, hlast, hsum⟩ := ih hrest (month + 1)
      refine ⟨n + 1, found, by omega, hfound, hfirst, hlast, ?_⟩
      rw [daysInFront, List.take_succ_cons, total, List.foldr_cons, ← total, ← daysInFront]
      omega

structure Date where
  year : Nat
  month : Nat
  day : Nat

namespace Date

/-- The date of a day, counted from the first day of year 1. -/
def ofDays (days : Nat) : Date :=
  let year := yearAndDay days
  let month := monthAndDay 1 (monthLengths year.1) year.2
  ⟨year.1, month.1, month.2⟩

def number (d : Date) : Nat := dayNumber d.year d.month d.day

/-- The calendar has the date. -/
def Exists (d : Date) : Prop := isDay d.year d.month d.day = true

/-- The month is there, and it is long enough. -/
theorem exists_iff (d : Date) :
    d.Exists ↔ 1 ≤ d.year ∧ 1 ≤ d.month ∧ 1 ≤ d.day ∧
      ∃ length, (monthLengths d.year)[d.month - 1]? = some length ∧ d.day ≤ length := by
  rw [Exists, isDay]
  cases (monthLengths d.year)[d.month - 1]? <;> simp [and_assoc]

theorem number_eq (d : Date) :
    d.number = daysBefore d.year + daysInFront (monthLengths d.year) (d.month - 1) + (d.day - 1) := by
  rw [number, dayNumber, daysInFront, total]

theorem ofDays_spec (days : Nat) : (ofDays days).Exists ∧ (ofDays days).number = days := by
  obtain ⟨hyear, hdays, hlength⟩ := yearAndDay_spec days
  rw [← total_monthLengths] at hlength
  obtain ⟨n, length, hmonth, hfound, hfirst, hlast, hsum⟩ := monthAndDay_spec hlength 1
  have hplace : (ofDays days).month - 1 = n := by
    change (monthAndDay 1 (monthLengths (yearAndDay days).1) (yearAndDay days).2).1 - 1 = n
    omega
  constructor
  · rw [exists_iff, hplace]
    refine ⟨hyear, ?_, hfirst, length, hfound, hlast⟩
    exact (Nat.le_add_right 1 n).trans_eq hmonth.symm
  · rw [number_eq, hplace, Nat.add_assoc]
    exact (congrArg _ hsum).trans hdays

/-- Comes first by the year, in the same year by the month, and in the same month by the day. -/
def Before (d e : Date) : Prop :=
  d.year < e.year ∨ d.year = e.year ∧ (d.month < e.month ∨ d.month = e.month ∧ d.day < e.day)

variable {d e : Date}

/-- A date lies between the first days of its month and of the next one. -/
theorem Exists.number_lt (hd : d.Exists) :
    d.number < daysBefore d.year + daysInFront (monthLengths d.year) d.month := by
  obtain ⟨-, hmonth, hday, length, hlength, hlast⟩ := d.exists_iff.mp hd
  have hnext := daysInFront_add hlength
  rw [Nat.sub_add_cancel hmonth] at hnext
  rw [number_eq]
  omega

theorem Exists.number_lt_of_before (hd : d.Exists) (h : d.Before e) :
    d.number < e.number := by
  have hend := hd.number_lt
  have hstart : daysBefore e.year + daysInFront (monthLengths e.year) (e.month - 1) ≤ e.number := by
    rw [number_eq]
    exact Nat.le_add_right _ _
  rcases h with hyear | ⟨hyear, hmonth | ⟨hmonth, hday⟩⟩
  · have hfirst : 1 ≤ d.year := (d.exists_iff.mp hd).1
    have hle := daysInFront_le (monthLengths d.year) d.month
    have hnext := daysBefore_mono (Nat.le_add_left 1 d.year) hyear
    rw [daysBefore_succ hfirst, ← total_monthLengths] at hnext
    omega
  · have hle := daysInFront_mono (monthLengths d.year) (Nat.le_sub_one_of_lt hmonth)
    rw [← hyear] at hstart
    omega
  · have hfirst : 1 ≤ d.day := (d.exists_iff.mp hd).2.2.1
    rw [number_eq, number_eq, hyear, hmonth]
    omega

theorem Exists.month_le (hd : d.Exists) : d.month ≤ 12 := by
  obtain ⟨-, -, -, length, hlength, -⟩ := d.exists_iff.mp hd
  have hplace : d.month - 1 < 12 := (List.getElem?_eq_some_iff.mp hlength).1
  omega

theorem Exists.day_le (hd : d.Exists) : d.day ≤ 31 := by
  obtain ⟨-, -, -, length, hlength, hday⟩ := d.exists_iff.mp hd
  have hlengths : ∀ n ∈ monthLengths d.year, n ≤ 31 := by
    rw [monthLengths]
    split <;> decide
  exact hday.trans (hlengths length (List.mem_of_getElem? hlength))

theorem before_or_eq_or_before (d e : Date) : d.Before e ∨ d = e ∨ e.Before d := by
  obtain ⟨year, month, day⟩ := d
  obtain ⟨year', month', day'⟩ := e
  simp only [Before, mk.injEq]
  omega

/-- Dates come in the order of their days. -/
theorem Exists.before_iff (hd : d.Exists) (he : e.Exists) : d.Before e ↔ d.number < e.number := by
  constructor
  · exact hd.number_lt_of_before
  · intro h
    rcases before_or_eq_or_before d e with hbefore | rfl | hafter
    · exact hbefore
    · exact absurd h (Nat.lt_irrefl _)
    · exact absurd h (Nat.lt_asymm (he.number_lt_of_before hafter))

end Date

end ScriptVet.Audit.Calendar
