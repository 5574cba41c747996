import Mathlib

/-!
# The calendar

Dates of the proleptic Gregorian calendar, as days before and after 1970-01-01.
Years are counted from March, so that a leap day is the last of its year.
-/

namespace OpenVoxDB.Calendar

/-- The days from March of year 0 to March of the year. -/
def daysBefore (year : Int) : Int := 365 * year + year / 4 - year / 100 + year / 400

/-- A day in its cycles of 400, 100, 4 years and one. -/
structure Cycles where
  quadricentennial : Int
  century : Int
  olympiad : Int
  year : Int
  day : Int

/-- The last year of a cycle may be a day longer. -/
def cycles (z : Int) : Cycles :=
  let century := min (z % 146097 / 36524) 3
  let rest := z % 146097 - century * 36524
  let year := min (rest % 1461 / 365) 3
  ⟨z / 146097, century, rest / 1461, year, rest % 1461 - 365 * year⟩

def Cycles.marchYear (c : Cycles) : Int :=
  400 * c.quadricentennial + 100 * c.century + 4 * c.olympiad + c.year

@[ext]
structure Date where
  year : Int
  month : Int
  day : Int
  deriving DecidableEq, Repr

/-- `LocalDate.ofEpochDay` -/
def ofEpochDay (n : Int) : Date :=
  let c := cycles (n + 719468)
  let month := (5 * c.day + 2) / 153
  ⟨if month < 10 then c.marchYear else c.marchYear + 1,
    if month < 10 then month + 3 else month - 9,
    c.day - (153 * month + 2) / 5 + 1⟩

/-- `LocalDate.toEpochDay` -/
def Date.toEpochDay (date : Date) : Int :=
  let month := if date.month ≤ 2 then date.month + 9 else date.month - 3
  let year := if date.month ≤ 2 then date.year - 1 else date.year
  daysBefore year + (153 * month + 2) / 5 + date.day - 1 - 719468

/-- Dates as numbers in chronological order. -/
def Date.number (date : Date) : Int := date.year * 10000 + date.month * 100 + date.day

theorem daysBefore_mono {a b : Int} (h : a ≤ b) : daysBefore a ≤ daysBefore b := by
  unfold daysBefore
  omega

/-- The cycles of a day, and the bounds of each. -/
structure Cycles.Bounded (c : Cycles) (z : Int) : Prop where
  century : 0 ≤ c.century ∧ c.century ≤ 3
  olympiad : 0 ≤ c.olympiad ∧ c.olympiad ≤ 24
  year : 0 ≤ c.year ∧ c.year ≤ 3
  day : 0 ≤ c.day ∧ c.day ≤ 365
  /-- A leap day ends a year before one that is divisible by 4, and by 400 if by 100. -/
  leap : c.day = 365 → c.year = 3 ∧ (c.olympiad = 24 → c.century = 3)
  sum : 146097 * c.quadricentennial + 36524 * c.century + 1461 * c.olympiad + 365 * c.year + c.day = z

theorem cycles_bounded (z : Int) : (cycles z).Bounded z := by
  obtain ⟨century, hcentury⟩ : ∃ century, century = min (z % 146097 / 36524) 3 := ⟨_, rfl⟩
  obtain ⟨rest, hrest⟩ : ∃ rest, rest = z % 146097 - century * 36524 := ⟨_, rfl⟩
  obtain ⟨year, hyear⟩ : ∃ year, year = min (rest % 1461 / 365) 3 := ⟨_, rfl⟩
  have hc : 0 ≤ century ∧ century ≤ 3 := by omega
  have hr : 0 ≤ rest ∧ rest ≤ 36524 ∧ (rest = 36524 → century = 3) := by omega
  have hy : 0 ≤ year ∧ year ≤ 3 := by omega
  have hcycles : cycles z = ⟨z / 146097, century, rest / 1461, year, rest % 1461 - 365 * year⟩ := by
    subst hyear hrest hcentury
    rfl
  rw [hcycles]
  constructor <;> simp only <;> omega

theorem daysBefore_marchYear (z : Int) : daysBefore (cycles z).marchYear + (cycles z).day = z := by
  obtain ⟨hcentury, holympiad, hyear, -, -, hsum⟩ := cycles_bounded z
  have hfour : (cycles z).marchYear / 4 =
      100 * (cycles z).quadricentennial + 25 * (cycles z).century + (cycles z).olympiad := by
    unfold Cycles.marchYear
    omega
  have hhundred : (cycles z).marchYear / 100 =
      4 * (cycles z).quadricentennial + (cycles z).century := by
    unfold Cycles.marchYear
    omega
  have hfourHundred : (cycles z).marchYear / 400 = (cycles z).quadricentennial := by
    unfold Cycles.marchYear
    omega
  unfold daysBefore
  rw [hfour, hhundred, hfourHundred]
  unfold Cycles.marchYear
  omega

/-- A day is one of its year. -/
theorem lt_daysBefore (z : Int) : z < daysBefore ((cycles z).marchYear + 1) := by
  obtain ⟨hcentury, holympiad, hyear, hday, hleap, hsum⟩ := cycles_bounded z
  have hstart := daysBefore_marchYear z
  unfold daysBefore at *
  unfold Cycles.marchYear at *
  omega

theorem toEpochDay_ofEpochDay (n : Int) : (ofEpochDay n).toEpochDay = n := by
  obtain ⟨-, -, -, hday, -, -⟩ := cycles_bounded (n + 719468)
  have hstart := daysBefore_marchYear (n + 719468)
  simp only [ofEpochDay, Date.toEpochDay]
  by_cases hmonth : (5 * (cycles (n + 719468)).day + 2) / 153 < 10
  · have hlate : ¬ (5 * (cycles (n + 719468)).day + 2) / 153 + 3 ≤ 2 := by omega
    simp only [hmonth, hlate, if_true, if_false]
    omega
  · have hearly : (5 * (cycles (n + 719468)).day + 2) / 153 - 9 ≤ 2 := by omega
    simp only [hmonth, hearly, if_true, if_false, Int.add_sub_cancel]
    omega

theorem ofEpochDay_month (n : Int) : 1 ≤ (ofEpochDay n).month ∧ (ofEpochDay n).month ≤ 12 := by
  obtain ⟨-, -, -, hday, -, -⟩ := cycles_bounded (n + 719468)
  simp only [ofEpochDay]
  split <;> omega

theorem ofEpochDay_day (n : Int) : 1 ≤ (ofEpochDay n).day ∧ (ofEpochDay n).day ≤ 31 := by
  obtain ⟨-, -, -, hday, -, -⟩ := cycles_bounded (n + 719468)
  simp only [ofEpochDay]
  omega

/-- A later day has a later date. -/
theorem number_lt {m n : Int} (h : m < n) : (ofEpochDay m).number < (ofEpochDay n).number := by
  have hyears : (cycles (m + 719468)).marchYear ≤ (cycles (n + 719468)).marchYear := by
    by_contra hlt
    have hmono := daysBefore_mono
      (show (cycles (n + 719468)).marchYear + 1 ≤ (cycles (m + 719468)).marchYear by omega)
    have hn := lt_daysBefore (n + 719468)
    have hm := daysBefore_marchYear (m + 719468)
    have hday := (cycles_bounded (m + 719468)).day
    omega
  have hm := daysBefore_marchYear (m + 719468)
  have hn := daysBefore_marchYear (n + 719468)
  have hmday := (cycles_bounded (m + 719468)).day
  have hnday := (cycles_bounded (n + 719468)).day
  obtain hyear | hyear := Int.lt_or_eq_of_le hyears
  · have hmdom := ofEpochDay_day m
    have hndom := ofEpochDay_day n
    simp only [Date.number, ofEpochDay] at *
    split <;> split <;> omega
  · rw [hyear] at hm
    have hmdom := ofEpochDay_day m
    have hndom := ofEpochDay_day n
    have hmonths : (5 * (cycles (m + 719468)).day + 2) / 153 ≤
        (5 * (cycles (n + 719468)).day + 2) / 153 := by omega
    simp only [Date.number, ofEpochDay, hyear] at *
    obtain hmonth | hmonth := Int.lt_or_eq_of_le hmonths
    · split <;> split <;> omega
    · rw [hmonth]
      omega

end OpenVoxDB.Calendar
