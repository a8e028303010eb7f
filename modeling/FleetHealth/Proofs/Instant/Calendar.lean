import FleetHealth.Instant.Calendar

/-!
# Dates of days

Every day has a valid date, and the date tells the day. A day of the 400 years of an era is found
through its century, the leap cycle of four years in it, and the year of that cycle; all of them start
in March.
-/
namespace FleetHealth.Calendar

/-- A day by its place among eras, centuries, leap cycles and years. The leap day is the last of its
cycle, and three centuries in four end without one. -/
structure Place where
  era : Int
  century : Int
  cycle : Int
  year : Int
  day : Int
  century_bounds : 0 ≤ century ∧ century ≤ 3
  cycle_bounds : 0 ≤ cycle ∧ cycle ≤ 24
  year_bounds : 0 ≤ year ∧ year ≤ 3
  day_bounds : 0 ≤ day ∧ day ≤ 365
  leap : day = 365 → year = 3 ∧ (cycle < 24 ∨ century = 3)

namespace Place

/-- Days from 1970-01-01. -/
def number (p : Place) : Int :=
  146097 * p.era + 36524 * p.century + 1461 * p.cycle + 365 * p.year + p.day - 719468

def yearOfEra (p : Place) : Int := 100 * p.century + 4 * p.cycle + p.year

def monthFromMarch (p : Place) : Int := (5 * p.day + 2) / 153

theorem exists_number (n : Int) : ∃ p : Place, p.number = n := by
  obtain ⟨era, d, hd, hn⟩ : ∃ era d, (0 ≤ d ∧ d < 146097) ∧ n + 719468 = 146097 * era + d :=
    ⟨(n + 719468) / 146097, (n + 719468) % 146097, by omega, by omega⟩
  obtain ⟨century, a, hcentury, ha, hd'⟩ : ∃ century a, (0 ≤ century ∧ century ≤ 3) ∧
      (0 ≤ a ∧ a ≤ 36524 ∧ (a = 36524 → century = 3)) ∧ d = 36524 * century + a :=
    ⟨min (d / 36524) 3, d - 36524 * min (d / 36524) 3, by omega, by omega, by omega⟩
  obtain ⟨cycle, b, hcycle, hb, ha'⟩ : ∃ cycle b, (0 ≤ cycle ∧ cycle ≤ 24) ∧
      (0 ≤ b ∧ b ≤ 1460) ∧ a = 1461 * cycle + b :=
    ⟨a / 1461, a % 1461, by omega, by omega, by omega⟩
  obtain ⟨year, day, hyear, hday, hb'⟩ : ∃ year day, (0 ≤ year ∧ year ≤ 3) ∧
      (0 ≤ day ∧ day ≤ 365 ∧ (day = 365 → year = 3)) ∧ b = 365 * year + day :=
    ⟨min (b / 365) 3, b - 365 * min (b / 365) 3, by omega, by omega, by omega⟩
  refine ⟨⟨era, century, cycle, year, day, hcentury, hcycle, hyear, ⟨hday.1, hday.2.1⟩,
    fun h => ⟨hday.2.2 h, ?_⟩⟩, ?_⟩
  · omega
  · simp only [number]
    omega

/-- The year is told by the day of the era once the leap days before it are taken out. -/
theorem yearOfEra_eq (p : Place) {d : Int} (h : d = p.number + 719468 - 146097 * p.era) :
    (d - d / 1460 + d / 36524 - d / 146096) / 365 = p.yearOfEra := by
  obtain ⟨era, century, cycle, year, day, hcentury, hcycle, hyear, hday, hleap⟩ := p
  simp only [number, yearOfEra] at *
  -- the quotients by 1460 and 36524 are those of the cycle and century, or one more at the end
  have hcycles : d / 1460 = 25 * century + cycle ∧ day < 365 ∨
      d / 1460 = 25 * century + cycle + 1 ∧ 0 < day := by omega
  have hcenturies : d / 36524 = century ∧ d / 146096 = 0 ∨
      d / 36524 = century + 1 ∧ d / 146096 = 1 := by omega
  omega

theorem monthFromMarch_bounds (p : Place) : 0 ≤ p.monthFromMarch ∧ p.monthFromMarch ≤ 11 := by
  have := p.day_bounds
  simp only [monthFromMarch]
  omega

def month (p : Place) : Int :=
  if p.monthFromMarch < 10 then p.monthFromMarch + 3 else p.monthFromMarch - 9

/-- The place as a date; January and February belong to the next calendar year. -/
def date (p : Place) : Date where
  year := 400 * p.era + p.yearOfEra + (if p.month ≤ 2 then 1 else 0)
  month := p.month.toNat
  day := (p.day - (153 * p.monthFromMarch + 2) / 5 + 1).toNat

theorem dateOfDay_number (p : Place) : dateOfDay p.number = p.date := by
  have hera : (p.number + 719468) / 146097 = p.era := by
    obtain ⟨era, century, cycle, year, day, hcentury, hcycle, hyear, hday, hleap⟩ := p
    simp only [number]
    omega
  have hofEra : (p.number + 719468) % 146097 = p.number + 719468 - 146097 * p.era := by omega
  have hday : p.number + 719468 - 146097 * p.era -
      (365 * p.yearOfEra + p.yearOfEra / 4 - p.yearOfEra / 100) = p.day := by
    obtain ⟨era, century, cycle, year, day, hcentury, hcycle, hyear, hday, hleap⟩ := p
    simp only [number, yearOfEra]
    omega
  simp only [dateOfDay, hera, hofEra, p.yearOfEra_eq rfl, hday, Int.mul_comm p.era]
  rfl

theorem dayNumber_date (p : Place) : dayNumber p.date = p.number := by
  have hmonth := p.monthFromMarch_bounds
  have hfrom : (((p.month.toNat + 9) % 12 : Nat) : Int) = p.monthFromMarch := by
    simp only [month]
    omega
  have hyear : (if p.month.toNat ≤ 2 then p.date.year - 1 else p.date.year) =
      400 * p.era + p.yearOfEra := by
    simp only [date]
    omega
  have hday : ((p.date.day : Nat) : Int) = p.day - (153 * p.monthFromMarch + 2) / 5 + 1 := by
    have := p.day_bounds
    simp only [date, monthFromMarch]
    omega
  simp only [dayNumber, hday, show p.date.month = p.month.toNat from rfl, hyear, hfrom]
  obtain ⟨era, century, cycle, year, day, hcentury, hcycle, hyear, hday, hleap⟩ := p
  simp only [number, yearOfEra] at *
  omega

/-- The last day of a leap cycle is in February of a leap year. -/
theorem isLeapYear_date (p : Place) (h : p.day = 365) : isLeapYear p.date.year = true := by
  have hfrom : p.monthFromMarch = 11 := by
    simp only [monthFromMarch]
    omega
  have hyear : p.date.year = 400 * p.era + p.yearOfEra + 1 := by simp [date, month, hfrom]
  obtain ⟨era, century, cycle, year, day, hcentury, hcycle, hyear', hday, hleap⟩ := p
  simp only [isLeapYear, Bool.or_eq_true, Bool.and_eq_true, beq_iff_eq, bne_iff_ne, hyear, yearOfEra]
  have := hleap h
  omega

theorem isValid_date (p : Place) : p.date.isValid = true := by
  have hmonth := p.monthFromMarch_bounds
  have hbounds := p.day_bounds
  have hfrom : p.monthFromMarch = (5 * p.day + 2) / 153 := rfl
  have hm : p.date.month = p.month.toNat := rfl
  have hmonth' : p.month =
    if p.monthFromMarch < 10 then p.monthFromMarch + 3 else p.monthFromMarch - 9 := rfl
  have hd : p.date.day = (p.day - (153 * p.monthFromMarch + 2) / 5 + 1).toNat := rfl
  have hdays : p.date.day ≤ daysInMonth p.date.year p.date.month := by
    unfold daysInMonth
    by_cases hlast : p.day = 365
    · have hfebruary : p.date.month = 2 := by omega
      rw [if_pos hfebruary, if_pos (p.isLeapYear_date hlast)]
      omega
    · split
      · split <;> omega
      · split <;> omega
  simp only [Date.isValid, Bool.and_eq_true, decide_eq_true_eq]
  exact ⟨⟨⟨by omega, by omega⟩, by omega⟩, hdays⟩

end Place

theorem dayNumber_dateOfDay (n : Int) : dayNumber (dateOfDay n) = n := by
  obtain ⟨p, rfl⟩ := Place.exists_number n
  rw [p.dateOfDay_number, p.dayNumber_date]

theorem daysInMonth_le (year : Int) (month : Nat) : daysInMonth year month ≤ 31 := by
  unfold daysInMonth
  split
  · split <;> omega
  · split <;> omega

theorem isValid_dateOfDay (n : Int) : (dateOfDay n).isValid = true := by
  obtain ⟨p, rfl⟩ := Place.exists_number n
  rw [p.dateOfDay_number, p.isValid_date]

/-- The days of a year and of those after it begin with its first of January. -/
theorem le_year_dateOfDay_iff (year n : Int) :
    year ≤ (dateOfDay n).year ↔ dayNumber ⟨year, 1, 1⟩ ≤ n := by
  obtain ⟨p, rfl⟩ := Place.exists_number n
  have hday : dayNumber ⟨year, 1, 1⟩ = (year - 1) / 400 * 146097 + (year - 1) % 400 * 365 +
      (year - 1) % 400 / 4 - (year - 1) % 400 / 100 + 306 - 719468 := by
    simp [dayNumber]
  have hyear : p.date.year = 400 * p.era + p.yearOfEra + (if p.day < 306 then 0 else 1) := by
    have := p.day_bounds
    simp only [Place.date, Place.month, Place.monthFromMarch]
    omega
  rw [p.dateOfDay_number, hday, hyear]
  obtain ⟨era, century, cycle, y, day, hcentury, hcycle, hyear, hday, hleap⟩ := p
  simp only [Place.number, Place.yearOfEra] at *
  omega

end FleetHealth.Calendar
