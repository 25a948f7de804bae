import FamilyPlatform.Kernel.Declared

/-! The periods of a rule yield exactly the dates that are declared by it, in order,
and each of them in one period. -/
namespace FamilyPlatform.Recurrence
open ZonedTime Civil

def Yields (rule : RecurrenceRule) (start : LocalDate) (step : Int) (dates : List (Option LocalDate)) : Prop :=
  ∃ ds : List LocalDate, dates = ds.map some ∧ ∀ d, d ∈ ds ↔
    (d.Real ∧ periodIndex rule start d = step ∧ Chosen rule start d)

theorem stepReal {rule : RecurrenceRule} {interval k : Nat} (finite : rule.interval = .finite interval)
    (small : k * interval ≤ 2 ^ 53) : stepOf rule.interval k = some ((k * interval : Nat) : Int) := by
  simp only [stepOf,finite,if_pos small]
  push_cast
  rfl

theorem intervalPositive {rule : RecurrenceRule} {interval : Nat} (finite : rule.interval = .finite interval) :
    0 < interval := by
  have := rule.parsed.interval
  rwa [finite,JsNumber.atLeastOne,decide_eq_true_eq] at this

theorem plainOrdinals {rule : RecurrenceRule} (freq : rule.freq = .daily ∨ rule.freq = .weekly) :
    ∀ day ∈ rule.byDay, day.ordinal = none := by
  intro day mem
  cases ordinal : day.ordinal with
  | none => rfl
  | some n =>
    obtain ⟨-,-,daily,weekly,-⟩ := rule.parsed.ordinal day mem n ordinal
    rcases freq with is | is <;> contradiction

theorem numberLast {d : Date} (real : d.Real) :
    dayNumber d.year d.month 1 ≤ d.number ∧ d.number ≤ dayNumber d.year d.month (monthLength d.year d.month) := by
  obtain ⟨-,-,first,last⟩ := real
  simp only [Date.number,dayNumber]
  omega

theorem onDayPlain {rule : RecurrenceRule} {d : LocalDate} {day : ByDay} (plain : day.ordinal = none) :
    OnDay rule d day ↔ weekdayAt d.number = day.weekday := by
  simp [OnDay,plain]

theorem weekStartBounds (wkst : Weekday) (n : Int) : n - 6 ≤ weekStart wkst n ∧ weekStart wkst n ≤ n := by
  unfold weekStart
  omega

theorem sameWeek {wkst : Weekday} {n m step : Int} : (weekStart wkst n - weekStart wkst m) / 7 = step ↔
    weekStart wkst m + 7 * step ≤ n ∧ n < weekStart wkst m + 7 * step + 7 := by
  have := weekdayIndexBounds wkst
  unfold weekStart
  omega

theorem startOfWeekReal {d : LocalDate} {wkst : Weekday} (real : d.Real) (low : -719162 ≤ d.number)
    (high : d.number ≤ latest) : startOfWeek d wkst = some (dateOf (weekStart wkst d.number)) := by
  have bounds := weekStartBounds wkst d.number
  have early : earliest ≤ d.number := by unfold earliest; omega
  simp only [startOfWeek,isoWeekdayIndexReal real early high,bind,Option.bind_some]
  rw [addDaysReal real early high (by unfold weekStart at bounds; unfold latest; omega)
    (by unfold weekStart at bounds; omega)]
  rfl

theorem onDayMonth {rule : RecurrenceRule} {d : LocalDate} {day : ByDay}
    (month : rule.freq = .yearly → rule.byMonth ≠ []) : OnDay rule d day ↔ OnDayOfMonth d day := by
  have scope : scopeOf rule d = (dayNumber d.year d.month 1, dayNumber d.year d.month (monthLength d.year d.month)) :=
    if_neg (fun both => month both.1 both.2)
  rw [OnDay,scope]
  rfl

section
variable {year month : Int} {d : LocalDate} (first : 1 ≤ year) (low : 1 ≤ month) (high : month ≤ 12)
  (inside : dayNumber year month (monthLength year month) ≤ latest)
include first low high inside

theorem memOnMonthDays {rule : RecurrenceRule} : d ∈ onMonthDays rule year month ↔
    d.Real ∧ d.year = year ∧ d.month = month ∧ (∃ value ∈ rule.byMonthDay, OnMonthDay d value) ∧
      (rule.byDay ≠ [] → ∃ day ∈ rule.byDay, OnDayOfMonth d day) := by
  simp only [onMonthDays,List.mem_filter,List.mem_filterMap,resolveReal first low high inside]
  constructor
  · rintro ⟨⟨value,mem,real,rfl,rfl,on⟩,day⟩
    exact ⟨real,rfl,rfl,⟨value,mem,on⟩,(dayLimitMonth ⟨real,first,inside⟩).mp day⟩
  · rintro ⟨real,rfl,rfl,⟨value,mem,on⟩,day⟩
    exact ⟨⟨value,mem,real,rfl,rfl,on⟩,(dayLimitMonth ⟨real,first,inside⟩).mpr day⟩

theorem memOnStartDay {start : LocalDate} (real : start.Real) : onStartDay start year month = some d ↔
    d.Real ∧ d.year = year ∧ d.month = month ∧ d.day = start.day := by
  have positive := real.2.2.1
  simp only [onStartDay,Option.filter_eq_some_iff,resolveReal first low high inside,decide_eq_true_eq]
  constructor
  · rintro ⟨⟨there,year,month,-⟩,same⟩
    exact ⟨there,year,month,same⟩
  · rintro ⟨there,year,month,same⟩
    exact ⟨⟨there,year,month,.inl ⟨by omega,same⟩⟩,same⟩

theorem memMonthDays {byDay : List ByDay} : d ∈ expandByDay (monthDates year month) byDay ↔
    d.Real ∧ d.year = year ∧ d.month = month ∧ ∃ day ∈ byDay, OnDayOfMonth d day := by
  simp only [expandByDay,List.mem_flatMap,memMonthDay first low high inside]
  constructor
  · rintro ⟨day,mem,real,is,at_,on⟩
    exact ⟨real,is,at_,day,mem,on⟩
  · rintro ⟨real,is,at_,day,mem,on⟩
    exact ⟨day,mem,real,is,at_,on⟩

end

theorem memYearDays {rule : RecurrenceRule} {year : Int} {d : LocalDate} (first : 1 ≤ year)
    (inside : yearStart (year + 1) - 1 ≤ latest) (yearly : rule.freq = .yearly) (none : rule.byMonth = []) :
    d ∈ expandByDay (yearDates year) rule.byDay ↔
      d.Real ∧ d.year = year ∧ ∃ day ∈ rule.byDay, OnDay rule d day := by
  have start := yearStartMono first
  have one : yearStart 1 = -719162 := by decide
  have length := yearLengthPos year
  have whole : yearStart year + (yearLength year).toNat - 1 = yearStart (year + 1) - 1 := by
    rw [yearStartSucc]
    omega
  have place : d ∈ datesFrom (yearStart year) (yearLength year).toNat ↔ d.Real ∧ d.year = year := by
    rw [memDatesFrom]
    constructor
    · rintro ⟨real,from_,to_⟩
      have same := dateOfNumber real
      have is : (dateOf d.number).year = year := yearOfUnique from_ (by omega)
      exact ⟨real,same ▸ is⟩
    · rintro ⟨real,rfl⟩
      obtain ⟨since,till⟩ := realOffset real
      exact ⟨real,since,by omega⟩
  have scope : scopeOf rule d = (yearStart d.year, yearStart (d.year + 1) - 1) := if_pos ⟨yearly,none⟩
  simp only [expandByDay,List.mem_flatMap,yearDatesReal first inside]
  have one' : ∀ day, d ∈ expandOne (datesFrom (yearStart year) (yearLength year).toNat) day ↔
      (d.Real ∧ d.year = year) ∧ OnDay rule d day := by
    intro day
    rw [memExpandOne (by unfold earliest; omega) (by rw [whole]; exact inside),place,whole]
    refine and_congr_right ?_
    rintro ⟨-,is⟩
    rw [OnDay,scope,is]
  simp only [one']
  constructor
  · rintro ⟨day,mem,⟨real,is⟩,on⟩
    exact ⟨real,is,day,mem,on⟩
  · rintro ⟨real,is,day,mem,on⟩
    exact ⟨day,mem,⟨real,is⟩,on⟩

section
variable {rule : RecurrenceRule} {start d : LocalDate} {year : Int} (first : 1 ≤ year)
  (inside : yearStart (year + 1) - 1 ≤ latest) (freq : rule.freq = .yearly)
include first inside

omit first in
theorem monthInside {month : Int} (low : 1 ≤ month) (high : month ≤ 12) :
    dayNumber year month (monthLength year month) ≤ latest := by
  obtain ⟨-,till⟩ := realOffset (lastDayReal year low high)
  simp only [Date.number] at till
  omega

include freq

theorem memYearMonthDays (supported : Supported rule) (onMonthDay : rule.byMonthDay ≠ []) :
    d ∈ (if rule.byMonth ≠ [] then rule.byMonth else (List.range 12).map (fun i : Nat => (i : Int) + 1)).flatMap
      (onMonthDays rule year) ↔ d.Real ∧ d.year = year ∧ Chosen rule start d := by
  have everyMonth : ∀ month, month ∈ (List.range 12).map (fun i : Nat => (i : Int) + 1) ↔ 1 ≤ month ∧ month ≤ 12 := by
    intro month
    simp only [List.mem_map,List.mem_range]
    constructor
    · rintro ⟨i,lt,rfl⟩
      omega
    · rintro ⟨low,high⟩
      exact ⟨(month - 1).toNat,by omega,by omega⟩
  have days : ∀ day ∈ rule.byDay, OnDay rule d day ↔ OnDayOfMonth d day := by
    intro day mem
    by_cases any : rule.byMonth = []
    · have plain := supported freq any onMonthDay day mem
      simp [OnDay,OnDayOfMonth,plain]
    · exact onDayMonth (fun _ => any)
  have some_ : (∃ day ∈ rule.byDay, OnDay rule d day) ↔ ∃ day ∈ rule.byDay, OnDayOfMonth d day :=
    exists_congr (fun day => and_congr_right (days day))
  rw [List.mem_flatMap]
  constructor
  · rintro ⟨month,mem,found⟩
    have bounds : 1 ≤ month ∧ month ≤ 12 := by
      by_cases any : rule.byMonth = []
      · rw [if_neg (by simpa using any)] at mem
        exact (everyMonth month).mp mem
      · rw [if_pos any] at mem
        exact rule.parsed.month month mem
    obtain ⟨real,is,rfl,value,on⟩ :=
      (memOnMonthDays first bounds.1 bounds.2 (monthInside inside bounds.1 bounds.2)).mp found
    rw [← some_] at on
    refine ⟨real,is,fun any => ?_,fun _ => value,on,fun _ none => absurd none onMonthDay⟩
    rwa [if_pos any] at mem
  · rintro ⟨real,is,c⟩
    refine ⟨d.month,?_,(memOnMonthDays first real.1 real.2.1 (monthInside inside real.1 real.2.1)).mpr
      ⟨real,is,rfl,c.monthDay onMonthDay,fun given => some_.mp (c.day given)⟩⟩
    by_cases any : rule.byMonth = []
    · rw [if_neg (by simpa using any)]
      exact (everyMonth d.month).mpr ⟨real.1,real.2.1⟩
    · rw [if_pos any]
      exact c.month any

theorem memYearWeekdays (onMonthDay : rule.byMonthDay = []) (onDay : rule.byDay ≠ []) :
    d ∈ (if rule.byMonth ≠ [] then rule.byMonth.flatMap (fun month => expandByDay (monthDates year month) rule.byDay)
      else expandByDay (yearDates year) rule.byDay) ↔ d.Real ∧ d.year = year ∧ Chosen rule start d := by
  by_cases any : rule.byMonth = []
  · rw [if_neg (by simpa using any),memYearDays first inside freq any]
    constructor
    · rintro ⟨real,is,on⟩
      exact ⟨real,is,fun some_ => absurd any some_,fun some_ => absurd onMonthDay some_,fun _ => on,
        fun none => absurd none onDay⟩
    · rintro ⟨real,is,c⟩
      exact ⟨real,is,c.day onDay⟩
  · rw [if_pos any,List.mem_flatMap]
    have days : ∀ day, OnDay rule d day ↔ OnDayOfMonth d day := fun day => onDayMonth (fun _ => any)
    constructor
    · rintro ⟨month,mem,found⟩
      obtain ⟨low,high⟩ := rule.parsed.month month mem
      obtain ⟨real,is,rfl,on⟩ := (memMonthDays first low high (monthInside inside low high)).mp found
      simp only [← days] at on
      exact ⟨real,is,fun _ => mem,fun some_ => absurd onMonthDay some_,fun _ => on,fun none => absurd none onDay⟩
    · rintro ⟨real,is,c⟩
      have on := c.day onDay
      simp only [days] at on
      exact ⟨d.month,c.month any,(memMonthDays first real.1 real.2.1 (monthInside inside real.1 real.2.1)).mpr
        ⟨real,is,rfl,on⟩⟩

theorem memYearStartDays (startReal : start.Real) (onMonthDay : rule.byMonthDay = []) (onDay : rule.byDay = []) :
    d ∈ (if rule.byMonth ≠ [] then rule.byMonth else [start.month]).filterMap (onStartDay start year) ↔
      d.Real ∧ d.year = year ∧ Chosen rule start d := by
  rw [List.mem_filterMap]
  constructor
  · rintro ⟨month,mem,found⟩
    by_cases any : rule.byMonth = []
    · rw [if_neg (by simpa using any),List.mem_singleton] at mem
      subst mem
      obtain ⟨real,is,at_,same⟩ := (memOnStartDay first startReal.1 startReal.2.1
        (monthInside inside startReal.1 startReal.2.1) startReal).mp found
      exact ⟨real,is,fun some_ => absurd any some_,fun some_ => absurd onMonthDay some_,
        fun some_ => absurd onDay some_,fun _ _ => by simpa [LikeStart,freq,any] using ⟨same,at_⟩⟩
    · rw [if_pos any] at mem
      obtain ⟨low,high⟩ := rule.parsed.month month mem
      obtain ⟨real,is,rfl,same⟩ := (memOnStartDay first low high (monthInside inside low high) startReal).mp found
      exact ⟨real,is,fun _ => mem,fun some_ => absurd onMonthDay some_,
        fun some_ => absurd onDay some_,fun _ _ => by simpa [LikeStart,freq,any] using same⟩
  · rintro ⟨real,is,c⟩
    have same := c.likeStart onDay onMonthDay
    simp only [LikeStart,freq] at same
    refine ⟨d.month,?_,(memOnStartDay first real.1 real.2.1 (monthInside inside real.1 real.2.1) startReal).mpr
      ⟨real,is,rfl,same.1⟩⟩
    by_cases any : rule.byMonth = []
    · rw [if_neg (by simpa using any),List.mem_singleton]
      exact same.2 any
    · rw [if_pos any]
      exact c.month any

end

section
variable {rule : RecurrenceRule} {start d : LocalDate} {y m : Int} (freq : rule.freq = .monthly) (first : 1 ≤ y)
  (low : 1 ≤ m) (high : m ≤ 12) (inside : dayNumber y m (monthLength y m) ≤ latest)
  (allowed : rule.byMonth ≠ [] → m ∈ rule.byMonth)
include freq first low high inside allowed

theorem chosenOnMonthDays (onMonthDay : rule.byMonthDay ≠ []) : d ∈ onMonthDays rule y m ↔
    d.Real ∧ (d.year = y ∧ d.month = m) ∧ Chosen rule start d := by
  have days : ∀ day, OnDay rule d day ↔ OnDayOfMonth d day := fun day => onDayMonth (by simp [freq])
  rw [memOnMonthDays first low high inside]
  simp only [← days]
  constructor
  · rintro ⟨real,year,month,value,on⟩
    exact ⟨real,⟨year,month⟩,month ▸ allowed,fun _ => value,on,fun _ none => absurd none onMonthDay⟩
  · rintro ⟨real,⟨year,month⟩,c⟩
    exact ⟨real,year,month,c.monthDay onMonthDay,c.day⟩

theorem chosenOnDays (onMonthDay : rule.byMonthDay = []) (onDay : rule.byDay ≠ []) :
    d ∈ expandByDay (monthDates y m) rule.byDay ↔ d.Real ∧ (d.year = y ∧ d.month = m) ∧ Chosen rule start d := by
  have days : ∀ day, OnDay rule d day ↔ OnDayOfMonth d day := fun day => onDayMonth (by simp [freq])
  rw [memMonthDays first low high inside]
  simp only [← days]
  constructor
  · rintro ⟨real,year,month,on⟩
    exact ⟨real,⟨year,month⟩,month ▸ allowed,fun some_ => absurd onMonthDay some_,fun _ => on,
      fun none => absurd none onDay⟩
  · rintro ⟨real,⟨year,month⟩,c⟩
    exact ⟨real,year,month,c.day onDay⟩

theorem chosenOnStartDay (real : start.Real) (onMonthDay : rule.byMonthDay = []) (onDay : rule.byDay = []) :
    onStartDay start y m = some d ↔ d.Real ∧ (d.year = y ∧ d.month = m) ∧ Chosen rule start d := by
  rw [memOnStartDay first low high inside real]
  constructor
  · rintro ⟨real,year,month,same⟩
    exact ⟨real,⟨year,month⟩,month ▸ allowed,fun some_ => absurd onMonthDay some_,fun some_ => absurd onDay some_,
      fun _ _ => by simpa [LikeStart,freq] using same⟩
  · rintro ⟨real,⟨year,month⟩,c⟩
    exact ⟨real,year,month,by simpa [LikeStart,freq] using c.likeStart onDay onMonthDay⟩

end

section
variable {rule : RecurrenceRule} {start : LocalDate} {step : Int} (s : StartDate start) (positive : 0 ≤ step)
  (inside : periodEnd rule start step ≤ latest)
include s positive inside

omit s positive in
theorem dailyLast (freq : rule.freq = .daily) : start.number + step ≤ latest := by
  simp only [periodEnd,freq] at inside
  split at inside
  · exact inside
  · have number := (numberLast (dateOfReal (start.number + step))).2
    rw [numberOfDate] at number
    omega

/- A rule that counts the days of the month is asked only of dates whose month is inside. -/
theorem dailyInside (freq : rule.freq = .daily) (some_ : rule.byMonthDay ≠ []) :
    Inside (dateOf (start.number + step)) := by
  obtain ⟨low,high⟩ := startBounds s
  have real := dateOfReal (start.number + step)
  have number := numberOfDate (start.number + step)
  simp only [periodEnd,freq] at inside
  rw [if_neg some_] at inside
  refine ⟨real,?_,inside⟩
  rcases realEarly real (by rw [number]; unfold earliest; omega) with first | ⟨zero,-⟩
  · exact first
  · obtain ⟨-,till⟩ := realOffset real
    rw [zero,number] at till
    have : yearStart (0 + 1) = -719162 := by decide
    omega

theorem dailyChosen (freq : rule.freq = .daily) :
    (matchesByMonth (some (dateOf (start.number + step))) rule.byMonth &&
      matchesByMonthDay (some (dateOf (start.number + step))) rule.byMonthDay &&
      matchesByDay (some (dateOf (start.number + step))) rule.byDay) = true ↔
      Chosen rule start (dateOf (start.number + step)) := by
  obtain ⟨low,high⟩ := startBounds s
  have last := dailyLast inside freq
  have number := numberOfDate (start.number + step)
  rw [Bool.and_eq_true,Bool.and_eq_true,monthLimit,monthDayLimit (dailyInside s positive inside freq),
    dayLimitPlain (dateOfReal _) (by rw [number]; unfold earliest; omega) (by rw [number]; exact last)
      (plainOrdinals (.inl freq))]
  have days : (∃ day ∈ rule.byDay, weekdayAt (dateOf (start.number + step)).number = day.weekday) ↔
      ∃ day ∈ rule.byDay, OnDay rule (dateOf (start.number + step)) day :=
    exists_congr (fun day => and_congr_right (fun mem => (onDayPlain (plainOrdinals (.inl freq) day mem)).symm))
  rw [days]
  constructor
  · rintro ⟨⟨month,monthDay⟩,day⟩
    exact ⟨month,monthDay,day,fun _ _ => by simp [LikeStart,freq]⟩
  · intro c
    exact ⟨⟨c.month,c.monthDay⟩,c.day⟩

omit s positive inside in
theorem dailyOnly (freq : rule.freq = .daily) (d : LocalDate) :
    d.Real ∧ periodIndex rule start d = step ↔ d = dateOf (start.number + step) := by
  have index : periodIndex rule start d = step ↔ d.number = start.number + step := by
    simp only [periodIndex,freq]
    omega
  rw [index]
  constructor
  · rintro ⟨real,same⟩
    rw [← dateOfNumber real,same]
  · rintro rfl
    exact ⟨dateOfReal _,numberOfDate _⟩

theorem dailyYields (freq : rule.freq = .daily) : Yields rule start step (dailyCandidates rule start (some step)) := by
  obtain ⟨low,high⟩ := startBounds s
  have chosen := dailyChosen s positive inside freq
  have added : addDays start step = some (dateOf (start.number + step)) :=
    addDaysReal s.1 (by unfold earliest; omega) (by unfold latest; omega) (by unfold latest; omega)
      (dailyLast inside freq)
  simp only [dailyCandidates,Option.bind_some,added]
  by_cases passes : Chosen rule start (dateOf (start.number + step))
  · refine ⟨[dateOf (start.number + step)],?_,fun d => ?_⟩
    · rw [List.filter_singleton,chosen.mpr passes]
      rfl
    · rw [List.mem_singleton,← and_assoc,dailyOnly freq]
      exact ⟨fun same => ⟨same,same ▸ passes⟩,fun both => both.1⟩
  · refine ⟨[],?_,fun d => ?_⟩
    · rw [List.filter_singleton,Bool.eq_false_iff.mpr (fun holds => passes (chosen.mp holds))]
      rfl
    · rw [← and_assoc,dailyOnly freq]
      exact ⟨fun mem => absurd mem List.not_mem_nil,fun ⟨same,c⟩ => absurd (same ▸ c) passes⟩

theorem weekDates (freq : rule.freq = .weekly) : ((startOfWeek start rule.wkst).bind (fun week =>
    addDays week (step * 7))) = some (dateOf (weekStart rule.wkst start.number + 7 * step)) ∧
    (List.range 7).map (fun i : Nat => addDays (dateOf (weekStart rule.wkst start.number + 7 * step)) i) =
      (datesFrom (weekStart rule.wkst start.number + 7 * step) 7).map some := by
  obtain ⟨low,high⟩ := startBounds s
  simp only [periodEnd,freq] at inside
  have bounds := weekStartBounds rule.wkst start.number
  have first : weekStart rule.wkst start.number + step * 7 = weekStart rule.wkst start.number + 7 * step := by omega
  constructor
  · rw [startOfWeekReal s.1 low (by unfold latest; omega),Option.bind_some,
      addDaysReal (dateOfReal _) (by rw [numberOfDate]; unfold earliest; omega) (by rw [numberOfDate]; omega)
        (by rw [numberOfDate]; unfold latest; omega) (by rw [numberOfDate]; omega),numberOfDate,first]
  · rw [datesFrom,List.map_map]
    refine List.map_congr_left (fun i source => ?_)
    have lt := List.mem_range.mp source
    rw [addDaysReal (dateOfReal _) (by rw [numberOfDate]; unfold earliest; omega) (by rw [numberOfDate]; omega)
      (by rw [numberOfDate]; unfold latest; omega) (by rw [numberOfDate]; omega),numberOfDate]
    rfl

omit s positive inside in
theorem weekdaysChosen (freq : rule.freq = .weekly) {d : LocalDate} (real : d.Real) (low : earliest ≤ d.number)
    (high : d.number ≤ latest) :
    weekdayOf (some d) ∈ (if rule.byDay ≠ [] then rule.byDay.map ByDay.weekday else [weekdayAt start.number]) ↔
      (rule.byDay ≠ [] → ∃ day ∈ rule.byDay, OnDay rule d day) ∧
        (rule.byDay = [] → weekdayAt d.number = weekdayAt start.number) := by
  rw [weekdayOfReal real low high]
  by_cases none : rule.byDay = []
  · simp [none]
  · rw [if_pos none,List.mem_map]
    simp only [ne_eq,none,not_false_eq_true,forall_const,false_implies,and_true]
    refine exists_congr (fun day => and_congr_right (fun mem => ?_))
    rw [onDayPlain (plainOrdinals (.inr freq) day mem)]
    exact eq_comm

theorem weeklyYields (freq : rule.freq = .weekly) :
    Yields rule start step (weeklyCandidates rule start (some step)) := by
  obtain ⟨low,high⟩ := startBounds s
  obtain ⟨begin_,week⟩ := weekDates s positive inside freq
  simp only [periodEnd,freq] at inside
  have bounds := weekStartBounds rule.wkst start.number
  have startDay : weekdayOf (some start) = weekdayAt start.number :=
    weekdayOfReal s.1 (by unfold earliest; omega) (by unfold latest; omega)
  have noMonthDay : rule.byMonthDay = [] := rule.parsed.weekly freq
  simp only [startOfWeekReal s.1 low (by unfold latest; omega),Option.bind_some] at begin_
  simp only [weeklyCandidates,startOfWeekReal s.1 low (by unfold latest; omega),bind,Option.bind_some,begin_,week,
    startDay,List.filter_map]
  refine ⟨_,rfl,fun d => ?_⟩
  rw [List.mem_filter,memDatesFrom]
  simp only [Function.comp,Bool.and_eq_true,decide_eq_true_eq,monthLimit]
  have index : periodIndex rule start d = step ↔ weekStart rule.wkst start.number + 7 * step ≤ d.number ∧
      d.number < weekStart rule.wkst start.number + 7 * step + (7 : Nat) := by
    simp only [periodIndex,freq]
    exact sameWeek
  rw [index]
  constructor
  · rintro ⟨⟨real,from_,to_⟩,day,month⟩
    have on := (weekdaysChosen freq real (by unfold earliest; omega) (by omega)).mp day
    exact ⟨real,⟨from_,to_⟩,month,fun some_ => absurd noMonthDay some_,on.1,
      fun none _ => by simpa [LikeStart,freq] using on.2 none⟩
  · rintro ⟨real,⟨from_,to_⟩,c⟩
    refine ⟨⟨real,from_,to_⟩,(weekdaysChosen freq real (by unfold earliest; omega) (by omega)).mpr ⟨c.day,?_⟩,c.month⟩
    intro none
    simpa [LikeStart,freq] using c.likeStart none noMonthDay

theorem monthlyYields (freq : rule.freq = .monthly) :
    Yields rule start step ((monthlyCandidates rule start (some step)).map some) := by
  have year := s.2.1
  have realMonth := s.1
  obtain ⟨⟨y,m⟩,both⟩ : ∃ both, addMonths start.year start.month step = both := ⟨_,rfl⟩
  simp only [periodEnd,freq,both] at inside
  refine ⟨_,rfl,fun d => ?_⟩
  simp only [monthlyCandidates,both]
  obtain ⟨is,at_⟩ := Prod.mk.inj both
  have low : 1 ≤ m := by omega
  have high : m ≤ 12 := by omega
  have first : 1 ≤ y := by have := realMonth.1; omega
  have index : d.Real → (periodIndex rule start d = step ↔ d.year = y ∧ d.month = m) := by
    intro real
    have := real.1
    have := real.2.1
    simp only [periodIndex,freq]
    omega
  rw [and_congr_right fun real => and_congr_left' (index real)]
  by_cases excluded : matchesByMonth (some ⟨y,m,1⟩) rule.byMonth = true
  · rw [excluded,if_neg (by simp)]
    have allowed : rule.byMonth ≠ [] → m ∈ rule.byMonth := monthLimit.mp excluded
    by_cases onMonthDay : rule.byMonthDay = []
    · rw [if_neg (by simpa using onMonthDay)]
      by_cases onDay : rule.byDay = []
      · rw [if_neg (by simpa using onDay),Option.mem_toList]
        exact chosenOnStartDay freq first low high inside allowed realMonth onMonthDay onDay
      · rw [if_pos onDay]
        exact chosenOnDays freq first low high inside allowed onMonthDay onDay
    · rw [if_pos onMonthDay]
      exact chosenOnMonthDays freq first low high inside allowed onMonthDay
  · rw [Bool.eq_false_iff.mpr excluded,if_pos (by rfl)]
    constructor
    · intro mem
      cases mem
    · rintro ⟨real,⟨-,rfl⟩,c⟩
      exact absurd (monthLimit.mpr c.month) excluded

theorem yearlyYields (freq : rule.freq = .yearly) (supported : Supported rule) :
    Yields rule start step ((yearlyCandidates rule start (some step)).map some) := by
  simp only [periodEnd,freq] at inside
  have first : 1 ≤ start.year + step := by have := s.2.1; omega
  refine ⟨_,rfl,fun d => ?_⟩
  have index : periodIndex rule start d = step ↔ d.year = start.year + step := by
    simp only [periodIndex,freq]
    omega
  rw [index]
  simp only [yearlyCandidates]
  by_cases onMonthDay : rule.byMonthDay = []
  · rw [if_neg (by simpa using onMonthDay)]
    by_cases onDay : rule.byDay = []
    · rw [if_neg (by simpa using onDay)]
      exact memYearStartDays first inside freq s.1 onMonthDay onDay
    · rw [if_pos onDay]
      exact memYearWeekdays first inside freq onMonthDay onDay
  · rw [if_pos onMonthDay]
    exact memYearMonthDays first inside freq supported onMonthDay

end
theorem setEntryKeys {κ α : Type} [DecidableEq κ] {key : κ} {value : α} {entries : List (κ × α)} :
    (setEntry key value entries).map Prod.fst =
      if key ∈ entries.map Prod.fst then entries.map Prod.fst else entries.map Prod.fst ++ [key] := by
  induction entries with
  | nil => rfl
  | cons e rest ih =>
    unfold setEntry
    by_cases same : e.1 = key
    · simp [same]
    · simp only [same,if_false,List.map_cons,ih,List.mem_cons,Ne.symm same,false_or]
      split <;> rfl

theorem setEntryNodup {κ α : Type} [DecidableEq κ] {key : κ} {value : α} {entries : List (κ × α)}
    (distinct : (entries.map Prod.fst).Nodup) : ((setEntry key value entries).map Prod.fst).Nodup := by
  rw [setEntryKeys]
  split
  · exact distinct
  · rename_i fresh
    exact List.nodup_append.mpr ⟨distinct,List.nodup_singleton _,fun a left b right same =>
      fresh (List.mem_singleton.mp right ▸ same ▸ left)⟩

theorem memSetEntry {κ α : Type} [DecidableEq κ] {key : κ} {value : α} {entries : List (κ × α)}
    (distinct : (entries.map Prod.fst).Nodup) {e : κ × α} :
    e ∈ setEntry key value entries ↔ e = (key,value) ∨ (e ∈ entries ∧ e.1 ≠ key) := by
  induction entries with
  | nil => simp [setEntry]
  | cons x rest ih =>
    obtain ⟨apart,others⟩ := List.nodup_cons.mp distinct
    unfold setEntry
    by_cases same : x.1 = key
    · rw [if_pos same,List.mem_cons]
      refine or_congr_right ⟨fun mem => ⟨List.mem_cons_of_mem x mem,?_⟩,?_⟩
      · rintro rfl
        exact apart (same ▸ List.mem_map_of_mem mem)
      · rintro ⟨mem,other⟩
        rcases List.mem_cons.mp mem with rfl | later
        · exact absurd same other
        · exact later
    · rw [if_neg same,List.mem_cons,ih others,List.mem_cons]
      constructor
      · rintro (rfl | new | ⟨mem,other⟩)
        · exact .inr ⟨.inl rfl,same⟩
        · exact .inl new
        · exact .inr ⟨.inr mem,other⟩
      · rintro (new | ⟨rfl | mem,other⟩)
        · exact .inr (.inl new)
        · exact .inl rfl
        · exact .inr (.inr ⟨mem,other⟩)

def entryOf (d : LocalDate) : Option Int × Option LocalDate := (some d.number, some d)

theorem byEpochDayReal {ds : List LocalDate} (real : ∀ d ∈ ds, d.Real) (told : ∀ d ∈ ds, toEpochDay d = some d.number) :
    ((byEpochDay (ds.map some)).map Prod.fst).Nodup ∧
      ∀ e, e ∈ byEpochDay (ds.map some) ↔ ∃ d ∈ ds, e = entryOf d := by
  have fold : ∀ (todo done_ : List LocalDate) (entries : List (Option Int × Option LocalDate)),
      (∀ d ∈ todo, toEpochDay d = some d.number ∧ d.Real) → (∀ d ∈ done_, d.Real) →
      (entries.map Prod.fst).Nodup → (∀ e, e ∈ entries ↔ ∃ d ∈ done_, e = entryOf d) →
      (((todo.map some).foldl (fun entries date => setEntry (date.bind toEpochDay) date entries) entries).map
        Prod.fst).Nodup ∧
      ∀ e, e ∈ (todo.map some).foldl (fun entries date => setEntry (date.bind toEpochDay) date entries) entries ↔
        ∃ d ∈ done_ ++ todo, e = entryOf d := by
    intro todo
    induction todo with
    | nil =>
      intro done_ entries _ _ distinct mem
      exact ⟨distinct,by rw [List.append_nil]; exact mem⟩
    | cons d rest ih =>
      intro done_ entries keyed there distinct mem
      obtain ⟨key,realD⟩ := keyed d List.mem_cons_self
      have next := ih (done_ ++ [d]) (setEntry (some d.number) (some d) entries)
        (fun x source => keyed x (List.mem_cons_of_mem d source))
        (fun x source => by
          rcases List.mem_append.mp source with old | new
          · exact there x old
          · rw [List.mem_singleton.mp new]; exact realD)
        (setEntryNodup distinct)
        (fun e => by
          rw [memSetEntry distinct,mem]
          constructor
          · rintro (rfl | ⟨⟨x,source,rfl⟩,-⟩)
            · exact ⟨d,by simp,rfl⟩
            · exact ⟨x,List.mem_append_left _ source,rfl⟩
          · rintro ⟨x,source,rfl⟩
            rcases List.mem_append.mp source with old | new
            · by_cases same : x.number = d.number
              · rw [numberInjective (there x old) realD same]
                exact .inl rfl
              · exact .inr ⟨⟨x,old,rfl⟩,by simpa [entryOf] using same⟩
            · rw [List.mem_singleton.mp new]
              exact .inl rfl)
      simpa [key] using next
  have all := fold ds [] [] (fun d mem => ⟨told d mem,real d mem⟩)
    (by simp) (by simp) (by simp)
  simpa [byEpochDay] using all

instance : Std.Total notAfter where
  total a b := by
    unfold notAfter
    cases a.1 <;> cases b.1 <;> simp [Int.le_total]

instance : IsTrans _ notAfter where
  trans a b c := by
    unfold notAfter
    cases a.1 <;> cases b.1 <;> cases c.1 <;> simp
    exact Int.le_trans

theorem entriesOnly {entries : List (Option Int × Option LocalDate)}
    (each : ∀ e ∈ entries, ∃ d : LocalDate, e = entryOf d) :
    entries = (entries.filterMap Prod.snd).map entryOf := by
  induction entries with
  | nil => rfl
  | cons e rest ih =>
    obtain ⟨d,rfl⟩ := each _ List.mem_cons_self
    rw [List.filterMap_cons_some (show (entryOf d).2 = some d from rfl),List.map_cons,
      ← ih (fun e mem => each e (List.mem_cons_of_mem _ mem))]

theorem candidatesReal {rule : RecurrenceRule} {start : LocalDate} {k : Nat} {ds : List LocalDate}
    (dates : periodDates rule start k = ds.map some) (real : ∀ d ∈ ds, d.Real)
    (told : ∀ d ∈ ds, toEpochDay d = some d.number) :
    ∃ sorted : List LocalDate, candidatesForPeriod rule start k = sorted.map some ∧
      sorted.Pairwise (fun a b => a.number < b.number) ∧ ∀ d, d ∈ sorted ↔ d ∈ ds := by
  obtain ⟨distinct,mem⟩ := byEpochDayReal real told
  rw [← dates] at distinct mem
  have perm := List.perm_insertionSort notAfter (byEpochDay (periodDates rule start k))
  have ordered := List.pairwise_insertionSort notAfter (byEpochDay (periodDates rule start k))
  have keys := (perm.map Prod.fst).nodup_iff.mpr distinct
  have only := entriesOnly (fun e source =>
    ((mem e).mp (perm.mem_iff.mp source)).imp (fun d both => both.2))
  have member := fun d => (perm.mem_iff (a := entryOf d)).trans (mem (entryOf d))
  unfold candidatesForPeriod
  generalize (byEpochDay (periodDates rule start k)).insertionSort notAfter = sorted at *
  generalize sorted.filterMap Prod.snd = days at only
  subst only
  refine ⟨days,by rw [List.map_map]; rfl,?_,fun d => ?_⟩
  · rw [List.pairwise_map] at ordered
    rw [List.map_map,List.nodup_iff_pairwise_ne,List.pairwise_map] at keys
    refine (ordered.and keys).imp (fun {a b} both => ?_)
    have le : a.number ≤ b.number := both.1
    have ne : a.number ≠ b.number := fun same => both.2 (congrArg some same)
    omega
  · have injective : ∀ a b : LocalDate, entryOf a = entryOf b → a = b :=
      fun a b same => Option.some.inj (congrArg Prod.snd same)
    have there := member d
    rw [List.mem_map] at there
    constructor
    · intro source
      obtain ⟨x,old,same⟩ := there.mp ⟨d,source,rfl⟩
      exact injective _ _ same ▸ old
    · intro source
      obtain ⟨x,old,same⟩ := there.mpr ⟨d,source,rfl⟩
      exact injective _ _ same ▸ old

section
variable {rule : RecurrenceRule} {start : LocalDate} (s : StartDate start)
include s

theorem smallStep {step : Int} (positive : 0 ≤ step) (inside : periodEnd rule start step ≤ latest) :
    step ≤ 200000000 := by
  obtain ⟨low,high⟩ := startBounds s
  have year := s.2.1
  have bounds := weekStartBounds rule.wkst start.number
  unfold latest at inside
  cases freq : rule.freq <;> simp only [periodEnd,freq] at inside
  · split at inside
    · omega
    · have number := (numberLast (dateOfReal (start.number + step))).2
      rw [numberOfDate] at number
      omega
  · omega
  · have month := s.1.1
    have real := lastDayReal (addMonths start.year start.month step).1
      (show 1 ≤ (addMonths start.year start.month step).2 by simp only [addMonths]; omega)
      (by simp only [addMonths]; omega)
    obtain ⟨since,-⟩ := realOffset real
    have := yearStartMono (show 1 ≤ (addMonths start.year start.month step).1 by simp only [addMonths]; omega)
    have : yearStart 1 = -719162 := by decide
    simp only [Date.number,addMonths] at *
    omega
  · have := yearStartMono (show 1 ≤ start.year + step + 1 by omega)
    have : yearStart 1 = -719162 := by decide
    omega

theorem periodBounds {step : Int} {d : LocalDate} (positive : 0 ≤ step)
    (inside : periodEnd rule start step ≤ latest) (real : d.Real) (period : periodIndex rule start d = step) :
    earliest ≤ d.number ∧ d.number ≤ latest := by
  obtain ⟨low,high⟩ := startBounds s
  have bounds := weekStartBounds rule.wkst start.number
  have year := s.2.1
  have january := s.1.1
  obtain ⟨since,till⟩ := realOffset real
  have one : yearStart 1 = -719162 := by decide
  unfold earliest
  cases freq : rule.freq <;> simp only [periodEnd,periodIndex,freq] at inside period
  · split at inside
    · omega
    · have number := (numberLast (dateOfReal (start.number + step))).2
      rw [numberOfDate] at number
      omega
  · have week := sameWeek.mp period
    omega
  · have monthA := real.1
    have monthB := real.2.1
    have same : addMonths start.year start.month step = (d.year,d.month) := by
      simp only [addMonths,Prod.mk.injEq]
      omega
    have := yearStartMono (show 1 ≤ d.year by omega)
    have number := (numberLast real).2
    rw [same] at inside
    simp only at inside
    omega
  · have same : start.year + step = d.year := by omega
    have := yearStartMono (show 1 ≤ d.year by omega)
    rw [same] at inside
    omega

theorem inRangeYields (supported : Supported rule) {interval k : Nat} (finite : rule.interval = .finite interval)
    (inside : periodEnd rule start (k * interval) ≤ latest) :
    ∃ ds : List LocalDate, candidatesForPeriod rule start k = ds.map some ∧
      ds.Pairwise (fun a b => a.number < b.number) ∧ ∀ d, d ∈ ds ↔
        (d.Real ∧ periodIndex rule start d = k * interval ∧ Chosen rule start d) := by
  have positive : (0 : Int) ≤ k * interval := by exact_mod_cast Nat.zero_le (k * interval)
  have small := smallStep s positive inside
  have step : stepOf rule.interval k = some (k * interval : Int) := by
    rw [stepReal finite (by zify; omega)]
    push_cast
    rfl
  have yields : Yields rule start (k * interval) (periodDates rule start k) := by
    unfold periodDates
    rw [step]
    cases freq : rule.freq with
    | daily => exact dailyYields s positive inside freq
    | weekly => exact weeklyYields s positive inside freq
    | monthly => exact monthlyYields s positive inside freq
    | yearly => exact yearlyYields s positive inside freq supported
  obtain ⟨ds,dates,mem⟩ := yields
  have bounds : ∀ d ∈ ds, earliest ≤ d.number ∧ d.number ≤ latest := fun d source =>
    periodBounds s positive inside ((mem d).mp source).1 ((mem d).mp source).2.1
  obtain ⟨sorted,same,ordered,members⟩ := candidatesReal dates (fun d source => ((mem d).mp source).1)
    (fun d source => toEpochDayReal ((mem d).mp source).1 (bounds d source).1 (bounds d source).2)
  exact ⟨sorted,same,ordered,fun d => (members d).trans (mem d)⟩

theorem memCandidates (supported : Supported rule) {k : Nat} {d : LocalDate} (inside : InRange rule start k) :
    some d ∈ candidatesForPeriod rule start k ↔ d.Real ∧
      (∃ interval : Nat, rule.interval = .finite interval ∧ periodIndex rule start d = k * interval) ∧
        Chosen rule start d := by
  obtain ⟨interval,finite,last⟩ := inside
  obtain ⟨ds,same,-,mem⟩ := inRangeYields s supported finite last
  rw [same,List.mem_map]
  constructor
  · rintro ⟨x,source,equal⟩
    cases Option.some.inj equal
    obtain ⟨real,period,chosen⟩ := (mem d).mp source
    exact ⟨real,⟨interval,finite,period⟩,chosen⟩
  · rintro ⟨real,⟨other,finite',period⟩,chosen⟩
    cases JsNumber.finite.inj (finite.symm.trans finite')
    exact ⟨d,(mem d).mpr ⟨real,period,chosen⟩,rfl⟩

def periodOf (rule : RecurrenceRule) (start d : LocalDate) : Nat :=
  match rule.interval with
  | .finite interval => (periodIndex rule start d / interval).toNat
  | .infinity => 0

omit s in
theorem periodOfIndex {d : LocalDate} {interval k : Nat} (finite : rule.interval = .finite interval)
    (period : periodIndex rule start d = k * interval) : periodOf rule start d = k := by
  have positive : (0 : Int) < interval := by exact_mod_cast intervalPositive finite
  simp only [periodOf,finite,period,Int.mul_ediv_cancel _ (ne_of_gt positive)]
  exact Int.toNat_natCast k

/-- The periods in range yield the declared dates in them, each date in one period. -/
theorem candidatesDeclared (supported : Supported rule) :
    (∀ k, InRange rule start k → ∃ ds : List LocalDate, candidatesForPeriod rule start k = ds.map some ∧
      ds.Pairwise (fun a b => a.number < b.number)) ∧
    (∀ d : LocalDate, (start.number ≤ d.number ∧ ∃ k, InRange rule start k ∧ some d ∈ candidatesForPeriod rule start k) ↔
      (Declared rule start d ∧ InRange rule start (periodOf rule start d))) ∧
    ∀ d : LocalDate, Declared rule start d → InRange rule start (periodOf rule start d) →
      ∃! k, InRange rule start k ∧ some d ∈ candidatesForPeriod rule start k := by
  have declared : ∀ d : LocalDate, Declared rule start d → InRange rule start (periodOf rule start d) →
      some d ∈ candidatesForPeriod rule start (periodOf rule start d) := by
    intro d dec inside
    obtain ⟨interval,k,finite,period⟩ := dec.period
    refine (memCandidates s supported inside).mpr ⟨dec.real,⟨interval,finite,?_⟩,dec.chosen⟩
    rw [periodOfIndex finite period]
    exact period
  refine ⟨?_,?_,?_⟩
  · rintro k ⟨interval,finite,last⟩
    obtain ⟨ds,same,ordered,-⟩ := inRangeYields s supported finite last
    exact ⟨ds,same,ordered⟩
  · intro d
    constructor
    · rintro ⟨since,k,inside,mem⟩
      obtain ⟨real,⟨interval,finite,period⟩,chosen⟩ := (memCandidates s supported inside).mp mem
      exact ⟨⟨real,since,⟨interval,k,finite,period⟩,chosen⟩,by rw [periodOfIndex finite period]; exact inside⟩
    · rintro ⟨dec,inside⟩
      exact ⟨dec.since,_,inside,declared d dec inside⟩
  · intro d dec inside
    refine ⟨_,⟨inside,declared d dec inside⟩,?_⟩
    rintro k ⟨inside',mem⟩
    obtain ⟨-,⟨interval,finite,period⟩,-⟩ := (memCandidates s supported inside').mp mem
    exact (periodOfIndex finite period).symm

end
def lastFriday : RecurrenceRule where
  freq := .monthly
  interval := .finite 1
  count := none
  «until» := none
  byDay := [⟨.fr,some (-1)⟩]
  byMonthDay := []
  byMonth := []
  wkst := .mo
  parsed := by constructor <;> simp [JsNumber.atLeastOne]

theorem lastFridaysDeclared : RecurrenceRule.parse "FREQ=MONTHLY;BYDAY=-1FR" = .ok lastFriday ∧
    ∀ d : LocalDate, ((⟨2026,1,30⟩ : LocalDate).number ≤ d.number ∧
      ∃ k, InRange lastFriday ⟨2026,1,30⟩ k ∧ some d ∈ candidatesForPeriod lastFriday ⟨2026,1,30⟩ k) ↔
      (Declared lastFriday ⟨2026,1,30⟩ d ∧ InRange lastFriday ⟨2026,1,30⟩ (periodOf lastFriday ⟨2026,1,30⟩ d)) :=
  ⟨by decide +kernel,(@candidatesDeclared lastFriday ⟨2026,1,30⟩ (by decide)
    (fun yearly => absurd yearly (by decide))).2.1⟩

end FamilyPlatform.Recurrence
