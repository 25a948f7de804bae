import FamilyPlatform.Kernel.Expand

/-! On real dates from December of the year 0 to the end of the range of `Date`, the
arithmetic of `Date` is that of the calendar. -/
namespace FamilyPlatform.ZonedTime
open Civil

/- 0000-12-01, and the last day with a time value. -/
def earliest : Int := -719193
def latest : Int := 100000000

def clockMs (l : LocalDateTime) : Int := l.hour * 3600000 + l.minute * 60000 + l.second * 1000

def LocalDateTime.Clock (l : LocalDateTime) : Prop :=
  0 ≤ l.hour ∧ l.hour ≤ 23 ∧ 0 ≤ l.minute ∧ l.minute ≤ 59 ∧ 0 ≤ l.second ∧ l.second ≤ 59

instance (l : LocalDateTime) : Decidable (LocalDateTime.Clock l) := inferInstanceAs (Decidable (_ ∧ _))

theorem clockBounds {l : LocalDateTime} (clock : LocalDateTime.Clock l) :
    0 ≤ clockMs l ∧ clockMs l ≤ msPerDay - 1000 := by
  unfold clockMs msPerDay
  unfold LocalDateTime.Clock at clock
  omega

theorem timeClipSome {ms : Int} (low : -(latest * msPerDay) ≤ ms) (high : ms ≤ latest * msPerDay) :
    timeClip ms = some ms := if_pos ⟨low,high⟩

theorem makeDayReal {year month : Int} (day : Int) (low : 1 ≤ month) (high : month ≤ 12) :
    makeDay year month day = dayNumber year month day := by
  have whole : (month - 1) / 12 = 0 := by omega
  have rest : (month - 1) % 12 + 1 = month := by omega
  rw [makeDay,whole,rest,Int.add_zero]

theorem leapCentury {year : Int} (low : 1 ≤ year) (high : year ≤ 99) : leap (1900 + year) = leap year := by
  rcases leapCases year with ⟨is,four,-⟩ | ⟨is,four⟩ <;>
    rcases leapCases (1900 + year) with ⟨is',four',-⟩ | ⟨is',four'⟩ <;> simp only [is,is'] <;> omega

/- The months of a year of the first century, and December of the year 0, are as long
as those of the year that `Date.UTC` takes it for. -/
theorem monthLengthCentury {year month : Int} (low : 1 ≤ year ∨ (year = 0 ∧ month = 12)) (high : year ≤ 99) :
    monthLength (1900 + year) month = monthLength year month := by
  rcases low with low | ⟨rfl,rfl⟩
  · simp only [monthLength,leapCentury low high]
  · rfl

theorem realEarly {d : Date} (real : d.Real) (low : earliest ≤ d.number) :
    1 ≤ d.year ∨ (d.year = 0 ∧ d.month = 12) := by
  obtain ⟨since,till⟩ := realOffset real
  rcases Int.lt_trichotomy d.year 0 with before | zero | after
  · have := yearStartMono (show d.year + 1 ≤ 0 by omega)
    have : yearStart 0 = -719528 := by decide
    unfold earliest at low
    omega
  · refine .inr ⟨zero,?_⟩
    by_contra other
    have december := @beforeMonthMono 0 _ _ real.1 (show d.month < 12 by have := real.2.1; omega) (Int.le_refl _)
    have start : yearStart 0 = -719528 := by decide
    have months : beforeMonth 0 12 = 335 := by decide
    obtain ⟨-,-,-,last⟩ := real
    simp only [Date.number,dayNumber,zero,earliest] at low last
    omega
  · exact .inl after

/- The year 1900 has all days of the first century but the 29th of February of the year 0. -/
theorem centuryReal {d : Date} (real : d.Real) (century : 0 ≤ d.year ∧ d.year ≤ 99) (other : d ≠ ⟨0,2,29⟩) :
    Date.Real ⟨1900 + d.year,d.month,d.day⟩ := by
  refine ⟨real.1,real.2.1,real.2.2.1,?_⟩
  have last := real.2.2.2
  rcases Int.lt_or_eq_of_le century.1 with later | zero
  · exact (monthLengthCentury (.inl later) century.2).symm ▸ last
  · obtain ⟨year,month,day⟩ := d
    subst zero
    by_cases february : month = 2
    · subst february
      have : day ≠ 29 := fun is => other (by rw [is])
      have short : day ≤ 29 := last
      change day ≤ 28
      omega
    · simpa [monthLength,february] using last

theorem localAsUtcMsClip {l : LocalDateTime} (real : l.toDate.Real) (clock : LocalDateTime.Clock l)
    (other : l.toDate ≠ ⟨0,2,29⟩) : localAsUtcMs l = timeClip (l.toDate.number * msPerDay + clockMs l) := by
  obtain ⟨first,long⟩ := clockBounds clock
  have sum : ∀ n : Int, n * msPerDay + l.hour * 3600000 + l.minute * 60000 + l.second * 1000 =
      n * msPerDay + clockMs l := by
    intro n
    unfold clockMs
    omega
  simp only [localAsUtcMs,dateUtc,sum]
  by_cases century : 0 ≤ l.year ∧ l.year ≤ 99
  · have real' := centuryReal real century other
    have near : dayNumber (1900 + l.year) l.month l.day ≤ 100000 ∧
        -100000 ≤ dayNumber (1900 + l.year) l.month l.day := by
      obtain ⟨since,till⟩ := realOffset real'
      have := yearStartMono (show 1900 ≤ 1900 + l.year by omega)
      have := yearStartMono (show 1900 + l.year + 1 ≤ 2000 by omega)
      have : yearStart 1900 = -25567 := by decide
      have : yearStart 2000 = 10957 := by decide
      simp only [Date.number] at since till
      omega
    have clip : timeClip (dayNumber (1900 + l.year) l.month l.day * msPerDay + clockMs l) =
        some (dayNumber (1900 + l.year) l.month l.day * msPerDay + clockMs l) :=
      timeClipSome (by unfold latest msPerDay at *; omega) (by unfold latest msPerDay at *; omega)
    have day : (dayNumber (1900 + l.year) l.month l.day * msPerDay + clockMs l) / msPerDay =
        dayNumber (1900 + l.year) l.month l.day := by
      unfold msPerDay at *
      omega
    have rest : (dayNumber (1900 + l.year) l.month l.day * msPerDay + clockMs l) % msPerDay = clockMs l := by
      unfold msPerDay at *
      omega
    have same := dateOfNumber real'
    simp only [Date.number] at same
    rw [if_pos century,makeDayReal _ real.1 real.2.1,clip,Option.bind_eq_bind,Option.bind_some,if_pos (by omega),
      setUtcFullYear,day,rest]
    simp only [same,makeDayReal _ real.1 real.2.1,Date.number]
  · rw [if_neg century,makeDayReal _ real.1 real.2.1]
    simp only [Date.number]
    cases timeClip (dayNumber l.year l.month l.day * msPerDay + clockMs l) with
    | none => rfl
    | some ms =>
      rw [Option.bind_eq_bind,Option.bind_some,if_neg (by omega)]

theorem localAsUtcMsReal {l : LocalDateTime} (real : l.toDate.Real) (clock : LocalDateTime.Clock l)
    (low : earliest ≤ l.toDate.number) (high : l.toDate.number * msPerDay + clockMs l ≤ latest * msPerDay) :
    localAsUtcMs l = some (l.toDate.number * msPerDay + clockMs l) := by
  obtain ⟨first,-⟩ := clockBounds clock
  have other : l.toDate ≠ ⟨0,2,29⟩ := by
    intro is
    rw [is] at low
    exact absurd low (by decide)
  rw [localAsUtcMsClip real clock other]
  exact timeClipSome (by unfold latest msPerDay earliest at *; omega) high

theorem toEpochDayOther {d : LocalDate} (real : d.Real) (other : d ≠ ⟨0,2,29⟩) (low : -latest ≤ d.number)
    (high : d.number ≤ latest) : toEpochDay d = some d.number := by
  have clock : LocalDateTime.Clock (atTime d 0 0 0) := by simp [LocalDateTime.Clock,atTime]
  have zero : clockMs (atTime d 0 0 0) = 0 := by simp [clockMs,atTime]
  have clip := localAsUtcMsClip (l := atTime d 0 0 0) real clock other
  rw [zero,timeClipSome (by unfold latest msPerDay at *; simp only [atTime]; omega)
    (by unfold latest msPerDay at *; simp only [atTime]; omega)] at clip
  rw [toEpochDay,clip]
  simp only [Option.map_some,Option.some.injEq,atTime]
  unfold msPerDay
  omega

theorem toEpochDayReal {d : LocalDate} (real : d.Real) (low : earliest ≤ d.number) (high : d.number ≤ latest) :
    toEpochDay d = some d.number := by
  refine toEpochDayOther real ?_ (by unfold earliest latest at *; omega) high
  rintro rfl
  exact absurd low (by decide)

theorem fromEpochDayReal {n : Int} (low : -latest ≤ n) (high : n ≤ latest) : fromEpochDay n = some (dateOf n) := by
  have clip : timeClip (n * msPerDay) = some (n * msPerDay) :=
    timeClipSome (by unfold msPerDay; omega) (by unfold msPerDay; omega)
  rw [fromEpochDay,clip]
  simp only [Option.map_some,utcDate]
  rw [Int.mul_ediv_cancel n (by decide)]

theorem addDaysReal {d : LocalDate} {n : Int} (real : d.Real) (low : earliest ≤ d.number)
    (high : d.number ≤ latest) (low' : -latest ≤ d.number + n) (high' : d.number + n ≤ latest) :
    addDays d n = some (dateOf (d.number + n)) := by
  simp only [addDays,toEpochDayReal real low high,bind,Option.bind_some]
  exact fromEpochDayReal low' high'

theorem lastDayReal (year : Int) {month : Int} (low : 1 ≤ month) (high : month ≤ 12) :
    Date.Real ⟨year,month,monthLength year month⟩ := by
  have := monthLengthBounds year month
  exact ⟨low,high,by simp only; omega,Int.le_refl _⟩

theorem makeDayLast (year : Int) {month : Int} (low : 1 ≤ month) (high : month ≤ 12) :
    makeDay year (month + 1) 0 = dayNumber year month (monthLength year month) := by
  rcases eq_or_lt_of_le high with rfl | less
  · have next : makeDay year (12 + 1) 0 = dayNumber (year + 1) 1 0 := rfl
    rw [next]
    simp only [dayNumber,yearStartSucc,beforeJanuary,← afterDecember]
    omega
  · rw [makeDayReal 0 (by omega) (by omega)]
    simp only [dayNumber,beforeMonthSucc low (show month ≤ 11 by omega)]
    omega

theorem daysInMonthReal {year month : Int} (first : 1 ≤ year) (low : 1 ≤ month) (high : month ≤ 12)
    (inside : dayNumber year month (monthLength year month) ≤ latest) :
    daysInMonth year month = some (monthLength year month) := by
  have length : ∀ full, monthLength full month = monthLength year month → 0 ≤ full →
      dayNumber full month (monthLength full month) ≤ latest →
      (timeClip (makeDay full (month + 1) 0 * msPerDay + 0 * 3600000 + 0 * 60000 + 0 * 1000)).map
        (fun ms => (utcDate ms).day) = some (monthLength year month) := by
    intro full same positive inside
    have real := lastDayReal full low high
    obtain ⟨since,-⟩ := realOffset real
    have := yearStartMono positive
    have : yearStart 0 = -719528 := by decide
    simp only [Date.number] at since
    have clip : timeClip (dayNumber full month (monthLength full month) * msPerDay) =
        some (dayNumber full month (monthLength full month) * msPerDay) :=
      timeClipSome (by unfold latest msPerDay at *; omega) (by unfold latest msPerDay at *; omega)
    have date := dateOfNumber real
    simp only [Date.number] at date
    simp only [makeDayLast full low high,Int.zero_mul,Int.add_zero,clip,Option.map_some,utcDate]
    rw [Int.mul_ediv_cancel _ (by decide),date,same]
  simp only [daysInMonth,dateUtc]
  split
  · have same := @monthLengthCentury _ month (.inl first) (by omega)
    refine length (1900 + year) same (by omega) ?_
    have real := lastDayReal (1900 + year) low high
    obtain ⟨-,till⟩ := realOffset real
    have := yearStartMono (show 1900 + year + 1 ≤ 2000 by omega)
    have : yearStart 2000 = 10957 := by decide
    simp only [Date.number] at till
    unfold latest
    omega
  · exact length year rfl (by omega) inside

theorem isoWeekdayIndexReal {d : LocalDate} (real : d.Real) (low : earliest ≤ d.number) (high : d.number ≤ latest) :
    isoWeekdayIndex d = some ((d.number + 3) % 7) := by
  rw [isoWeekdayIndex,toEpochDayReal real low high]
  simp only [Option.map_some,Option.some.injEq]
  omega

end FamilyPlatform.ZonedTime
