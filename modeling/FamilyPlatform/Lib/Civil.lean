import Mathlib.Tactic.Linarith

/-! The proleptic Gregorian calendar over the integers. Days are counted from
1970-01-01; years before 1 are counted on past 0. -/
namespace FamilyPlatform.Civil

def leap (year : Int) : Bool := year % 4 = 0 && (year % 100 ≠ 0 || year % 400 = 0)

def yearLength (year : Int) : Int := if leap year then 366 else 365

def monthLength (year month : Int) : Int :=
  if month = 2 then if leap year then 29 else 28
  else if month = 4 ∨ month = 6 ∨ month = 9 ∨ month = 11 then 30 else 31

def yearStart (year : Int) : Int :=
  365 * (year - 1) + (year - 1) / 4 - (year - 1) / 100 + (year - 1) / 400 - 719162

def beforeMonth (year month : Int) : Int :=
  (367 * month - 362) / 12 - if month ≤ 2 then 0 else if leap year then 1 else 2

def dayNumber (year month day : Int) : Int := yearStart year + beforeMonth year month + (day - 1)

structure Date where
  year : Int
  month : Int
  day : Int
  deriving DecidableEq, Repr

def Date.Real (d : Date) : Prop :=
  1 ≤ d.month ∧ d.month ≤ 12 ∧ 1 ≤ d.day ∧ d.day ≤ monthLength d.year d.month

instance (d : Date) : Decidable d.Real := inferInstanceAs (Decidable (_ ∧ _))

def Date.number (d : Date) : Int := dayNumber d.year d.month d.day

def yearOf (n : Int) : Int :=
  let guess := 400 * (n + 719162) / 146097 + 1
  if n < yearStart guess then guess - 1 else if yearStart (guess + 1) ≤ n then guess + 1 else guess

def monthOf (year offset : Int) : Int :=
  (12 * (offset + if offset < beforeMonth year 3 then 0 else if leap year then 1 else 2) + 373) / 367

def dateOf (n : Int) : Date :=
  let year := yearOf n
  let offset := n - yearStart year
  let month := monthOf year offset
  ⟨year, month, offset - beforeMonth year month + 1⟩

theorem leapCases (year : Int) :
    (leap year = true ∧ year % 4 = 0 ∧ (year % 100 ≠ 0 ∨ year % 400 = 0)) ∨
    (leap year = false ∧ (year % 4 ≠ 0 ∨ (year % 100 = 0 ∧ year % 400 ≠ 0))) := by
  unfold leap
  by_cases four : year % 4 = 0 <;> by_cases hundred : year % 100 = 0 <;>
    by_cases fourHundred : year % 400 = 0 <;> simp [four,hundred,fourHundred]

theorem yearStartSucc (year : Int) : yearStart (year + 1) = yearStart year + yearLength year := by
  unfold yearStart yearLength
  rcases leapCases year with ⟨is,four,rest⟩ | ⟨is,rest⟩ <;> simp only [is] <;> simp <;> omega

theorem yearLengthPos (year : Int) : 365 ≤ yearLength year ∧ yearLength year ≤ 366 := by
  unfold yearLength
  split <;> omega

theorem yearStartMono {a b : Int} (le : a ≤ b) : 365 * (b - a) ≤ yearStart b - yearStart a := by
  unfold yearStart
  omega

theorem yearOfBounds (n : Int) : yearStart (yearOf n) ≤ n ∧ n < yearStart (yearOf n + 1) := by
  have low : yearStart (400 * (n + 719162) / 146097 + 1 - 1) ≤ n := by unfold yearStart; omega
  have high : n < yearStart (400 * (n + 719162) / 146097 + 1 + 1 + 1) := by unfold yearStart; omega
  simp only [yearOf]
  split
  · rename_i early
    exact ⟨low,by simpa using early⟩
  · split
    · rename_i late
      exact ⟨late,high⟩
    · omega

theorem yearOfUnique {n year : Int} (low : yearStart year ≤ n) (high : n < yearStart (year + 1)) :
    yearOf n = year := by
  obtain ⟨low',high'⟩ := yearOfBounds n
  rcases Int.lt_trichotomy (yearOf n) year with lt | same | gt
  · have := yearStartMono (show yearOf n + 1 ≤ year by omega)
    omega
  · exact same
  · have := yearStartMono (show year + 1 ≤ yearOf n by omega)
    omega

theorem monthLengthBounds (year month : Int) : 28 ≤ monthLength year month ∧ monthLength year month ≤ 31 := by
  unfold monthLength
  split
  · split <;> omega
  · split <;> omega

theorem beforeMonthSucc {year month : Int} (low : 1 ≤ month) (high : month ≤ 11) :
    beforeMonth year (month + 1) = beforeMonth year month + monthLength year month := by
  have cases : month = 1 ∨ month = 2 ∨ month = 3 ∨ month = 4 ∨ month = 5 ∨ month = 6 ∨ month = 7 ∨
    month = 8 ∨ month = 9 ∨ month = 10 ∨ month = 11 := by omega
  rcases cases with rfl | rfl | rfl | rfl | rfl | rfl | rfl | rfl | rfl | rfl | rfl <;>
    cases is : leap year <;> simp [beforeMonth,monthLength,is]

@[simp] theorem beforeJanuary (year : Int) : beforeMonth year 1 = 0 := by simp [beforeMonth]

theorem afterDecember (year : Int) : beforeMonth year 12 + monthLength year 12 = yearLength year := by
  cases is : leap year <;> simp [beforeMonth,monthLength,yearLength,is]

theorem beforeMonthMono {year a b : Int} (low : 1 ≤ a) (lt : a < b) (high : b ≤ 12) :
    beforeMonth year a + monthLength year a ≤ beforeMonth year b := by
  obtain ⟨n,rfl⟩ : ∃ n : Nat, b = a + 1 + n := ⟨(b - a - 1).toNat,by omega⟩
  clear lt
  induction n with
  | zero => rw [← beforeMonthSucc low (by simp at high; omega)]; simp
  | succ n ih =>
    have step : beforeMonth year (a + 1 + n + 1) = _ := beforeMonthSucc (by omega) (by push_cast at high; omega)
    have long := monthLengthBounds year (a + 1 + n)
    have before := ih (by push_cast at high; omega)
    have same : a + 1 + ((n + 1 : Nat) : Int) = a + 1 + n + 1 := by push_cast; omega
    rw [same,step]
    omega

theorem realOffset {d : Date} (real : d.Real) :
    yearStart d.year ≤ d.number ∧ d.number < yearStart (d.year + 1) := by
  obtain ⟨low,high,first,last⟩ := real
  have start : 0 ≤ beforeMonth d.year d.month := by
    rcases eq_or_lt_of_le low with one | more
    · rw [← one]; simp
    · have := @beforeMonthMono d.year _ _ (Int.le_refl 1) more high
      have := monthLengthBounds d.year 1
      simp only [beforeJanuary] at *
      omega
  have stop : beforeMonth d.year d.month + monthLength d.year d.month ≤ yearLength d.year := by
    rw [← afterDecember]
    rcases eq_or_lt_of_le high with twelve | less
    · rw [twelve]
    · have := @beforeMonthMono d.year _ _ low less (Int.le_refl 12)
      have := monthLengthBounds d.year 12
      omega
  rw [yearStartSucc]
  simp only [Date.number,dayNumber]
  omega

theorem monthOfBounds {year offset : Int} (low : 0 ≤ offset) (high : offset < yearLength year) :
    1 ≤ monthOf year offset ∧ monthOf year offset ≤ 12 ∧ beforeMonth year (monthOf year offset) ≤ offset ∧
      offset < beforeMonth year (monthOf year offset) + monthLength year (monthOf year offset) := by
  cases is : leap year <;>
    simp only [monthOf,beforeMonth,monthLength,yearLength,is] at * <;> simp at * <;> omega

theorem monthUnique {year offset a b : Int} (lowA : 1 ≤ a) (highA : a ≤ 12) (lowB : 1 ≤ b) (highB : b ≤ 12)
    (fromA : beforeMonth year a ≤ offset) (toA : offset < beforeMonth year a + monthLength year a)
    (fromB : beforeMonth year b ≤ offset) (toB : offset < beforeMonth year b + monthLength year b) :
    a = b := by
  rcases Int.lt_trichotomy a b with lt | same | gt
  · have := @beforeMonthMono year _ _ lowA lt highB
    omega
  · exact same
  · have := @beforeMonthMono year _ _ lowB gt highA
    omega

theorem dateOfReal (n : Int) : (dateOf n).Real := by
  obtain ⟨low,high⟩ := yearOfBounds n
  rw [yearStartSucc] at high
  obtain ⟨one,twelve,start,stop⟩ := @monthOfBounds (yearOf n) (n - yearStart (yearOf n))
    (by omega) (by omega)
  exact ⟨one,twelve,by simp only [dateOf]; omega,by simp only [dateOf]; omega⟩

@[simp] theorem numberOfDate (n : Int) : (dateOf n).number = n := by
  simp only [Date.number,dateOf,dayNumber]
  omega

theorem dateOfNumber {d : Date} (real : d.Real) : dateOf d.number = d := by
  obtain ⟨since,till⟩ := realOffset real
  have year : yearOf d.number = d.year := yearOfUnique since till
  obtain ⟨low,high,first,last⟩ := real
  have inside : 0 ≤ d.number - yearStart d.year ∧ d.number - yearStart d.year < yearLength d.year := by
    rw [yearStartSucc] at till
    omega
  obtain ⟨one,twelve,start,stop⟩ := monthOfBounds inside.1 inside.2
  have offset : d.number - yearStart d.year = beforeMonth d.year d.month + (d.day - 1) := by
    simp only [Date.number,dayNumber]
    omega
  have month : monthOf d.year (d.number - yearStart d.year) = d.month :=
    monthUnique one twelve low high start stop (by omega) (by omega)
  have day : d.number - yearStart d.year - beforeMonth d.year d.month + 1 = d.day := by omega
  simp only [dateOf,year,month,day]

theorem numberInjective {a b : Date} (realA : a.Real) (realB : b.Real) (same : a.number = b.number) : a = b := by
  rw [← dateOfNumber realA,← dateOfNumber realB,same]

def Date.Earlier (a b : Date) : Prop :=
  a.year < b.year ∨ (a.year = b.year ∧ (a.month < b.month ∨ (a.month = b.month ∧ a.day < b.day)))

instance (a b : Date) : Decidable (a.Earlier b) := inferInstanceAs (Decidable (_ ∨ _))

theorem numberMono {a b : Date} (realA : a.Real) (realB : b.Real) (earlier : a.Earlier b) : a.number < b.number := by
  obtain ⟨sinceA,tillA⟩ := realOffset realA
  obtain ⟨sinceB,-⟩ := realOffset realB
  rcases earlier with year | ⟨year,month | ⟨month,day⟩⟩
  · have := yearStartMono (show a.year + 1 ≤ b.year from year)
    omega
  · obtain ⟨low,-,-,last⟩ := realA
    obtain ⟨-,high,first,-⟩ := realB
    have before := @beforeMonthMono a.year _ _ low month high
    simp only [Date.number,dayNumber,← year]
    omega
  · simp only [Date.number,dayNumber,← year,← month]
    omega

theorem earlierTotal (a b : Date) : a.Earlier b ∨ a = b ∨ b.Earlier a := by
  obtain ⟨year,month,day⟩ := a
  obtain ⟨year',month',day'⟩ := b
  simp only [Date.Earlier,Date.mk.injEq]
  omega

theorem numberEarlier {a b : Date} (realA : a.Real) (realB : b.Real) : a.number < b.number ↔ a.Earlier b := by
  refine ⟨fun less => ?_,numberMono realA realB⟩
  rcases earlierTotal a b with earlier | rfl | later
  · exact earlier
  · exact absurd less (Int.lt_irrefl _)
  · exact absurd (numberMono realB realA later) (Int.not_lt.mpr (Int.le_of_lt less))

def Date.following (d : Date) : Date :=
  if d.day < monthLength d.year d.month then { d with day := d.day + 1 }
  else if d.month < 12 then ⟨d.year,d.month + 1,1⟩
  else ⟨d.year + 1,1,1⟩

theorem followingReal {d : Date} (real : d.Real) : d.following.Real := by
  obtain ⟨low,high,first,last⟩ := real
  unfold Date.following
  split
  · rename_i more
    exact ⟨low,high,show 1 ≤ d.day + 1 by omega,more⟩
  · split
    · rename_i less
      have := monthLengthBounds d.year (d.month + 1)
      exact ⟨show 1 ≤ d.month + 1 by omega,less,Int.le_refl 1,show 1 ≤ monthLength d.year (d.month + 1) by omega⟩
    · have := monthLengthBounds (d.year + 1) 1
      exact ⟨Int.le_refl 1,show (1 : Int) ≤ 12 by decide,Int.le_refl 1,show 1 ≤ monthLength (d.year + 1) 1 by omega⟩

theorem followingNumber {d : Date} (real : d.Real) : d.following.number = d.number + 1 := by
  obtain ⟨low,high,first,last⟩ := real
  unfold Date.following
  split
  · simp only [Date.number,dayNumber]
    omega
  · split
    · have next := @beforeMonthSucc d.year _ low (show d.month ≤ 11 by omega)
      simp only [Date.number,dayNumber,next]
      omega
    · rename_i full _
      have twelve : d.month = 12 := by omega
      have year := afterDecember d.year
      rw [twelve] at full last
      simp only [Date.number,dayNumber,yearStartSucc,beforeJanuary,← year,twelve]
      omega

end FamilyPlatform.Civil
