/-
Days and dates of the Gregorian calendar, without bounds in either direction.

Day 0 is 1 January 1970.  The calendar repeats every 400 years of 146097 days, and
inside that cycle a year is taken to begin in March, so that the leap day is the
last day of its year.
-/

namespace Publishing

structure Date where
  year : Int
  month : Int
  day : Int
  deriving DecidableEq, Inhabited

namespace Date

/-- Days from 1 March of year 0 to day 0. -/
def epochShift : Int := 719468

/-- The year of a day, both counted within a cycle. -/
def yearOfCycle (day : Int) : Int := (day - day / 1460 + day / 36524 - day / 146096) / 365

/-- Days of a cycle before this year. -/
def daysBefore (year : Int) : Int := 365 * year + year / 4 - year / 100

/-- The month of a day, both counted from March. -/
def monthOfYear (day : Int) : Int := (5 * day + 2) / 153

/-- Days from March to this month. -/
def daysToMonth (month : Int) : Int := (153 * month + 2) / 5

/-- The date of a day. -/
def ofDay (n : Int) : Date :=
  let z := n + epochShift
  let year := yearOfCycle (z % 146097)
  let day := z % 146097 - daysBefore year
  let month := monthOfYear day
  if month < 10 then
    ⟨400 * (z / 146097) + year, month + 3, day - daysToMonth month + 1⟩
  else
    ⟨400 * (z / 146097) + year + 1, month - 9, day - daysToMonth month + 1⟩

/-- The day of a date. -/
def toDay (d : Date) : Int :=
  let year := if d.month ≤ 2 then d.year - 1 else d.year
  let month := if d.month ≤ 2 then d.month + 9 else d.month - 3
  146097 * (year / 400) + daysBefore (year % 400) + daysToMonth month + d.day - 1 - epochShift

/-- Whether the calendar has this date: it is the date of its own day. -/
def inCalendar (d : Date) : Bool := ofDay d.toDay = d

theorem yearOfCycle_bounds {d : Int} (h : 0 ≤ d) (h' : d < 146097) :
    0 ≤ yearOfCycle d ∧ yearOfCycle d < 400 := by
  unfold yearOfCycle; omega

theorem dayOfYear_bounds {d : Int} (h : 0 ≤ d) (h' : d < 146097) :
    0 ≤ d - daysBefore (yearOfCycle d) ∧ d - daysBefore (yearOfCycle d) < 367 := by
  unfold daysBefore
  generalize hy : yearOfCycle d = y
  unfold yearOfCycle at hy
  generalize hi : d / 36524 = i at hy
  generalize hg : d / 1460 = g at hy
  generalize hj : d / 146096 = j at hy
  have hyg : y = 4 * g - 1 ∨ y = 4 * g ∨ y = 4 * g + 1 ∨ y = 4 * g + 2 ∨ y = 4 * g + 3 := by
    omega
  have hj' : j = 0 ∨ j = 1 := by omega
  rcases hj' with rfl | rfl
  · have hyi : y / 100 = i := by omega
    rw [hyi]
    rcases hyg with rfl | rfl | rfl | rfl | rfl <;> omega
  · omega

theorem monthOfYear_bounds {d : Int} (h : 0 ≤ d) (h' : d < 367) :
    0 ≤ monthOfYear d ∧ monthOfYear d < 12 := by
  unfold monthOfYear; omega

theorem toDay_ofDay (n : Int) : (ofDay n).toDay = n := by
  have hd : 0 ≤ (n + epochShift) % 146097 ∧ (n + epochShift) % 146097 < 146097 := by omega
  have hy := yearOfCycle_bounds hd.1 hd.2
  have hday := dayOfYear_bounds hd.1 hd.2
  have hm := monthOfYear_bounds hday.1 hday.2
  unfold ofDay
  simp only []
  generalize yearOfCycle ((n + epochShift) % 146097) = y at hy hm ⊢
  generalize monthOfYear ((n + epochShift) % 146097 - daysBefore y) = m at hm ⊢
  split
  · have hm' : ¬ m + 3 ≤ 2 := by omega
    have h₁ : (400 * ((n + epochShift) / 146097) + y) / 400 = (n + epochShift) / 146097 := by omega
    have h₂ : (400 * ((n + epochShift) / 146097) + y) % 400 = y := by omega
    simp only [toDay, if_neg hm', h₁, h₂, Int.add_sub_cancel]
    omega
  · have hm' : m - 9 ≤ 2 := by omega
    have h₁ : (400 * ((n + epochShift) / 146097) + y + 1 - 1) / 400 = (n + epochShift) / 146097 := by
      omega
    have h₂ : (400 * ((n + epochShift) / 146097) + y + 1 - 1) % 400 = y := by omega
    simp only [toDay, if_pos hm', h₁, h₂, Int.sub_add_cancel]
    omega

theorem inCalendar_ofDay (n : Int) : (ofDay n).inCalendar := by
  simp [inCalendar, toDay_ofDay]

example : ofDay 0 = ⟨1970, 1, 1⟩ := by decide
example : (⟨2000, 2, 29⟩ : Date).inCalendar = true := by decide
example : (⟨1900, 2, 29⟩ : Date).inCalendar = false := by decide
example : (⟨2023, 13, 1⟩ : Date).inCalendar = false := by decide

end Date
end Publishing
