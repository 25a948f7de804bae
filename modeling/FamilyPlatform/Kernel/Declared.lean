import FamilyPlatform.Lib.Weeks
import FamilyPlatform.Kernel.Dates

/-! The dates of a recurrence rule, said of a date without any expansion; and what the
days of a month, of a year, and each limit on a date come to in these terms. -/
namespace FamilyPlatform.Recurrence
open ZonedTime Civil
open Weeks (Nth)

def weekdayAt (n : Int) : Weekday := (weekdays[((n + 3) % 7).toNat]?).getD .mo

def weekStart (wkst : Weekday) (n : Int) : Int := n - ((n + 3) % 7 - weekdayIndex wkst + 7) % 7

def periodIndex (rule : RecurrenceRule) (start d : LocalDate) : Int :=
  match rule.freq with
  | .daily => d.number - start.number
  | .weekly => (weekStart rule.wkst d.number - weekStart rule.wkst start.number) / 7
  | .monthly => d.year * 12 + d.month - (start.year * 12 + start.month)
  | .yearly => d.year - start.year

def OnMonthDay (d : LocalDate) (value : Int) : Prop :=
  (0 < value ∧ d.day = value) ∨ (value < 0 ∧ d.day = monthLength d.year d.month + value + 1)

def scopeOf (rule : RecurrenceRule) (d : LocalDate) : Int × Int :=
  if rule.freq = .yearly ∧ rule.byMonth = [] then (yearStart d.year, yearStart (d.year + 1) - 1)
  else (dayNumber d.year d.month 1, dayNumber d.year d.month (monthLength d.year d.month))

def OnDay (rule : RecurrenceRule) (d : LocalDate) (day : ByDay) : Prop :=
  weekdayAt d.number = day.weekday ∧
    ∀ n, day.ordinal = some n → Nth (scopeOf rule d).1 (scopeOf rule d).2 n d.number

def LikeStart (rule : RecurrenceRule) (start d : LocalDate) : Prop :=
  match rule.freq with
  | .daily => True
  | .weekly => weekdayAt d.number = weekdayAt start.number
  | .monthly => d.day = start.day
  | .yearly => d.day = start.day ∧ (rule.byMonth = [] → d.month = start.month)

structure Chosen (rule : RecurrenceRule) (start d : LocalDate) : Prop where
  month : rule.byMonth ≠ [] → d.month ∈ rule.byMonth
  monthDay : rule.byMonthDay ≠ [] → ∃ value ∈ rule.byMonthDay, OnMonthDay d value
  day : rule.byDay ≠ [] → ∃ day ∈ rule.byDay, OnDay rule d day
  likeStart : rule.byDay = [] → rule.byMonthDay = [] → LikeStart rule start d

structure Declared (rule : RecurrenceRule) (start d : LocalDate) : Prop where
  real : d.Real
  since : start.number ≤ d.number
  period : ∃ interval k : Nat, rule.interval = .finite interval ∧ periodIndex rule start d = k * interval
  chosen : Chosen rule start d

/- The last day that a period computes with: resolving a day of the month needs its last. -/
def periodEnd (rule : RecurrenceRule) (start : LocalDate) (step : Int) : Int :=
  match rule.freq with
  | .daily =>
    let date := dateOf (start.number + step)
    if rule.byMonthDay = [] then start.number + step
    else dayNumber date.year date.month (monthLength date.year date.month)
  | .weekly => weekStart rule.wkst start.number + 7 * step + 6
  | .monthly =>
    let (year, month) := addMonths start.year start.month step
    dayNumber year month (monthLength year month)
  | .yearly => yearStart (start.year + step + 1) - 1

/- The dates of the period stay inside the range of `Date`. -/
def InRange (rule : RecurrenceRule) (start : LocalDate) (k : Nat) : Prop :=
  ∃ interval : Nat, rule.interval = .finite interval ∧ periodEnd rule start (k * interval) ≤ latest

/- Left out: the ordinal of a weekday that only limits the days of the month of a year. -/
def Supported (rule : RecurrenceRule) : Prop :=
  rule.freq = .yearly → rule.byMonth = [] → rule.byMonthDay ≠ [] → ∀ day ∈ rule.byDay, day.ordinal = none

def StartDate (start : LocalDate) : Prop := start.Real ∧ 1 ≤ start.year ∧ start.year ≤ 9999

instance (start : LocalDate) : Decidable (StartDate start) := inferInstanceAs (Decidable (_ ∧ _))

theorem weekdayAtIndex (n : Int) : weekdayIndex (weekdayAt n) = (n + 3) % 7 := by
  have cases : (n + 3) % 7 = 0 ∨ (n + 3) % 7 = 1 ∨ (n + 3) % 7 = 2 ∨ (n + 3) % 7 = 3 ∨ (n + 3) % 7 = 4 ∨
    (n + 3) % 7 = 5 ∨ (n + 3) % 7 = 6 := by omega
  unfold weekdayAt
  rcases cases with h | h | h | h | h | h | h <;> rw [h] <;> rfl

theorem weekdayIndexBounds (day : Weekday) : 0 ≤ weekdayIndex day ∧ weekdayIndex day < 7 := by
  cases day <;> decide

theorem weekdayIndexInjective {a b : Weekday} (same : weekdayIndex a = weekdayIndex b) : a = b := by
  cases a <;> cases b <;> first | rfl | exact absurd same (by decide)

theorem weekdayAtIs {n : Int} {day : Weekday} : weekdayAt n = day ↔ (n + 3) % 7 = weekdayIndex day := by
  rw [← weekdayAtIndex]
  exact ⟨fun same => same ▸ rfl,weekdayIndexInjective⟩

theorem startBounds {start : LocalDate} (s : StartDate start) :
    -719162 ≤ start.number ∧ start.number ≤ 2932896 := by
  obtain ⟨real,first,last⟩ := s
  obtain ⟨since,till⟩ := realOffset real
  have := yearStartMono first
  have := yearStartMono (show start.year + 1 ≤ 10000 by omega)
  have : yearStart 1 = -719162 := by decide
  have : yearStart 10000 = 2932897 := by decide
  omega

structure StartDay (start : LocalDate) : Prop where
  real : start.Real
  first : 1 ≤ start.year
  last : start.number < latest

theorem StartDate.day {start : LocalDate} (s : StartDate start) : StartDay start :=
  ⟨s.1,s.2.1,by have := startBounds s; unfold latest; omega⟩

theorem StartDay.low {start : LocalDate} (s : StartDay start) : -719162 ≤ start.number := by
  obtain ⟨since,-⟩ := realOffset s.real
  have first := s.first
  have := yearStartMono first
  have : yearStart 1 = -719162 := by decide
  omega

theorem weekdayOfReal {d : LocalDate} (real : d.Real) (low : earliest ≤ d.number) (high : d.number ≤ latest) :
    weekdayOf (some d) = weekdayAt d.number := by
  simp only [weekdayOf,Option.bind_some,isoWeekdayIndexReal real low high]
  rfl

def datesFrom (first : Int) (length : Nat) : List LocalDate :=
  (List.range length).map (fun i : Nat => dateOf (first + i))

theorem memDatesFrom {first : Int} {length : Nat} {d : LocalDate} :
    d ∈ datesFrom first length ↔ d.Real ∧ first ≤ d.number ∧ d.number < first + length := by
  unfold datesFrom
  constructor
  · intro mem
    obtain ⟨i,source,rfl⟩ := List.mem_map.mp mem
    have := List.mem_range.mp source
    rw [numberOfDate]
    exact ⟨dateOfReal _,by omega,by omega⟩
  · rintro ⟨real,low,high⟩
    refine List.mem_map.mpr ⟨(d.number - first).toNat,List.mem_range.mpr (by omega),?_⟩
    rw [← dateOfNumber real,numberOfDate]
    congr 1
    omega

theorem monthDatesReal {year month : Int} (first : 1 ≤ year) (low : 1 ≤ month) (high : month ≤ 12)
    (inside : dayNumber year month (monthLength year month) ≤ latest) :
    monthDates year month = datesFrom (dayNumber year month 1) (monthLength year month).toNat := by
  have length := monthLengthBounds year month
  simp only [monthDates,daysInMonthReal first low high inside,Option.getD_some,datesFrom]
  refine List.map_congr_left (fun i source => ?_)
  have lt := List.mem_range.mp source
  have real : Date.Real ⟨year,month,i + 1⟩ := ⟨low,high,by simp only; omega,by simp only; omega⟩
  have number : dayNumber year month 1 + i = Date.number ⟨year,month,i + 1⟩ := by
    simp only [Date.number,dayNumber]
    omega
  rw [number,dateOfNumber real]

theorem datesFromAppend (first : Int) (a b : Nat) :
    datesFrom first (a + b) = datesFrom first a ++ datesFrom (first + a) b := by
  simp only [datesFrom,List.range_add,List.map_append,List.map_map]
  congr 1
  refine List.map_congr_left (fun i _ => ?_)
  simp only [Function.comp]
  congr 1
  push_cast
  omega

theorem beforeThirteenth (year : Int) : beforeMonth year 13 = yearLength year := by
  cases is : leap year <;> simp [beforeMonth,yearLength,is]

theorem monthStep {year : Int} {month : Nat} (high : month < 12) :
    beforeMonth year (month + 2) = beforeMonth year (month + 1) + monthLength year (month + 1) := by
  rcases Nat.lt_or_ge month 11 with less | more
  · have step : beforeMonth year ((month : Int) + 1 + 1) = _ := beforeMonthSucc (by omega) (by omega)
    rwa [Int.add_assoc] at step
  · obtain rfl : month = 11 := by omega
    exact (beforeThirteenth year).trans (afterDecember year).symm

theorem monthsReal {year : Int} (first : 1 ≤ year) {month : Nat} (high : month ≤ 12)
    (inside : ∀ m : Int, 1 ≤ m → m ≤ month → dayNumber year m (monthLength year m) ≤ latest) :
    0 ≤ beforeMonth year (month + 1) ∧ (List.range month).flatMap (fun i : Nat => monthDates year (i + 1)) =
      datesFrom (yearStart year) (beforeMonth year (month + 1)).toNat := by
  induction month with
  | zero => simp [datesFrom]
  | succ month ih =>
    obtain ⟨positive,before⟩ := ih (by omega) (fun m low le => inside m low (by omega))
    have length := monthLengthBounds year (month + 1)
    have step : beforeMonth year (month + 2) = _ := monthStep (show month < 12 by omega)
    have start : yearStart year + ((beforeMonth year (month + 1)).toNat : Int) = dayNumber year (month + 1) 1 := by
      simp only [dayNumber]
      omega
    have whole : (beforeMonth year ((month + 1 : Nat) + 1)).toNat =
        (beforeMonth year (month + 1)).toNat + (monthLength year (month + 1)).toNat := by
      push_cast
      rw [show (month : Int) + 1 + 1 = month + 2 by omega,step]
      omega
    refine ⟨by push_cast; rw [show (month : Int) + 1 + 1 = month + 2 by omega,step]; omega,?_⟩
    rw [whole,datesFromAppend,start,List.range_succ,List.flatMap_append,before,List.flatMap_singleton]
    rw [monthDatesReal first (by omega) (by omega) (inside _ (by omega) (by omega))]

theorem yearDatesReal {year : Int} (first : 1 ≤ year) (inside : yearStart (year + 1) - 1 ≤ latest) :
    yearDates year = datesFrom (yearStart year) (yearLength year).toNat := by
  have each : ∀ m : Int, 1 ≤ m → m ≤ (12 : Nat) → dayNumber year m (monthLength year m) ≤ latest := by
    intro m low high
    obtain ⟨-,till⟩ := realOffset (lastDayReal year low (by omega))
    simp only [Date.number] at till
    omega
  rw [yearDates,(monthsReal first (Nat.le_refl 12) each).2]
  congr 2
  exact beforeThirteenth year

theorem pickMap {α : Type} {f : α → LocalDate} {xs : List α} {n index : Int} {d : LocalDate}
    (counted : index = if 0 < n then n - 1 else xs.length + n) :
    pick (xs.map f) n = some d ↔ ∃ x, f x = d ∧ ¬ index < 0 ∧ xs[index.toNat]? = some x := by
  simp only [pick,List.length_map,← counted,List.getElem?_map]
  split
  · rename_i negative
    simp [negative]
  · rename_i inside
    simp only [Option.map_eq_some_iff,inside,not_false_eq_true,true_and]
    exact exists_congr (fun x => and_comm)

theorem memExpandOne {first : Int} {length : Nat} {day : ByDay} {d : LocalDate} (low : earliest ≤ first)
    (high : first + length - 1 ≤ latest) :
    d ∈ expandOne (datesFrom first length) day ↔ d ∈ datesFrom first length ∧ weekdayAt d.number = day.weekday ∧
      ∀ n, day.ordinal = some n → Nth first (first + length - 1) n d.number := by
  have bounds := weekdayIndexBounds day.weekday
  have weekday : ∀ d ∈ datesFrom first length, weekdayOf (some d) = weekdayAt d.number := by
    intro d mem
    obtain ⟨real,from_,to_⟩ := memDatesFrom.mp mem
    exact weekdayOfReal real (by omega) (by omega)
  have matching : (datesFrom first length).filter (fun date => decide (weekdayOf (some date) = day.weekday)) =
      (Weeks.falling (first + 3) (weekdayIndex day.weekday) length).map (fun i : Nat => dateOf (first + i)) := by
    rw [List.filter_congr (q := fun date => decide (weekdayAt date.number = day.weekday))
      (fun d mem => by rw [weekday d mem])]
    rw [datesFrom,List.filter_map,Weeks.falling]
    refine congrArg (List.map _) (List.filter_congr (fun i _ => ?_))
    simp only [Function.comp,numberOfDate,weekdayAtIs]
    congr 2
    omega
  unfold expandOne
  simp only [matching]
  cases ordinal : day.ordinal with
  | none =>
    simp only [reduceCtorEq,false_implies,implies_true,and_true]
    rw [← matching,List.mem_filter]
    simp only [decide_eq_true_eq]
    exact and_congr_right (fun mem => by rw [weekday d mem])
  | some n =>
    simp only [Option.mem_toList,Option.some.injEq,forall_eq']
    obtain ⟨index,counted⟩ : ∃ index : Int, index = if 0 < n then n - 1
      else (Weeks.falling (first + 3) (weekdayIndex day.weekday) length).length + n := ⟨_,rfl⟩
    simp only [pickMap counted,Weeks.fallingNth _ _ bounds.1 bounds.2 counted]
    constructor
    · rintro ⟨i,rfl,lt,at_,place⟩
      refine ⟨memDatesFrom.mpr ⟨dateOfReal _,by rw [numberOfDate]; omega,by rw [numberOfDate]; omega⟩,?_,?_⟩
      · rw [weekdayAtIs,numberOfDate]
        omega
      · rw [numberOfDate]
        unfold Nth at *
        omega
    · rintro ⟨mem,at_,place⟩
      obtain ⟨real,from_,to_⟩ := memDatesFrom.mp mem
      rw [weekdayAtIs] at at_
      refine ⟨(d.number - first).toNat,?_,by omega,by omega,?_⟩
      · rw [← dateOfNumber real,numberOfDate]
        exact congrArg dateOf (by omega)
      · unfold Nth at *
        omega

structure Inside (d : LocalDate) : Prop where
  real : d.Real
  first : 1 ≤ d.year
  last : dayNumber d.year d.month (monthLength d.year d.month) ≤ latest

theorem Inside.bounds {d : LocalDate} (i : Inside d) : earliest ≤ d.number ∧ d.number ≤ latest := by
  obtain ⟨since,-⟩ := realOffset i.real
  have := yearStartMono i.first
  have : yearStart 1 = -719162 := by decide
  have last := i.last
  have day := i.real.2.2.2
  have := i.first
  simp only [Date.number,dayNumber] at *
  unfold earliest
  omega

theorem monthLimit {d : LocalDate} {byMonth : List Int} :
    matchesByMonth (some d) byMonth = true ↔ (byMonth ≠ [] → d.month ∈ byMonth) := by
  simp only [matchesByMonth,Bool.or_eq_true,decide_eq_true_eq,Option.map_some,Option.getD_some]
  by_cases none : byMonth = [] <;> simp [none]

theorem resolveReal {year month value : Int} {d : LocalDate} (first : 1 ≤ year) (low : 1 ≤ month) (high : month ≤ 12)
    (inside : dayNumber year month (monthLength year month) ≤ latest) :
    resolveMonthDay year month value = some d ↔
      d.Real ∧ d.year = year ∧ d.month = month ∧ OnMonthDay d value := by
  have length := monthLengthBounds year month
  simp only [resolveMonthDay,daysInMonthReal first low high inside,bind,Option.bind_some]
  constructor
  · intro resolved
    generalize counted : (if 0 < value then value else monthLength year month + value + 1) = day at resolved
    split at resolved <;> cases resolved
    rename_i within
    refine ⟨⟨low,high,within.1,within.2⟩,rfl,rfl,?_⟩
    change (0 < value ∧ day = value) ∨ (value < 0 ∧ day = monthLength year month + value + 1)
    split at counted <;> omega
  · rintro ⟨real,rfl,rfl,on⟩
    obtain ⟨-,-,one,last⟩ := real
    have day : (if 0 < value then value else monthLength d.year d.month + value + 1) = d.day := by
      unfold OnMonthDay at on
      split <;> omega
    rw [day,if_pos ⟨one,last⟩]

theorem monthDayLimit {d : LocalDate} {byMonthDay : List Int} (inside : byMonthDay ≠ [] → Inside d) :
    matchesByMonthDay (some d) byMonthDay = true ↔
      (byMonthDay ≠ [] → ∃ value ∈ byMonthDay, OnMonthDay d value) := by
  by_cases none : byMonthDay = []
  · simp [matchesByMonthDay,none]
  have i := inside none
  have resolved : ∀ value, ((resolveMonthDay d.year d.month value).filter (fun e => decide (e.day = d.day))).isSome ↔
      OnMonthDay d value := by
    intro value
    rw [Option.isSome_iff_exists]
    constructor
    · rintro ⟨e,found⟩
      obtain ⟨source,same⟩ := Option.filter_eq_some_iff.mp found
      obtain ⟨real,year,month,on⟩ := (resolveReal i.first i.real.1 i.real.2.1 i.last).mp source
      simp only [decide_eq_true_eq] at same
      simpa only [OnMonthDay,year,month,same] using on
    · intro on
      exact ⟨d,Option.filter_eq_some_iff.mpr
        ⟨(resolveReal i.first i.real.1 i.real.2.1 i.last).mpr ⟨i.real,rfl,rfl,on⟩,by simp⟩⟩
  simp only [matchesByMonthDay,none,decide_false,Bool.false_or,List.any_eq_true,Option.bind_some,resolved,
    ne_eq,not_false_eq_true,forall_const]

theorem dayLimitPlain {d : LocalDate} {byDay : List ByDay} (real : d.Real) (low : earliest ≤ d.number)
    (high : d.number ≤ latest) (plain : ∀ day ∈ byDay, day.ordinal = none) :
    matchesByDay (some d) byDay = true ↔
      (byDay ≠ [] → ∃ day ∈ byDay, weekdayAt d.number = day.weekday) := by
  by_cases none : byDay = []
  · simp [matchesByDay,none]
  simp only [matchesByDay,none,decide_false,Bool.false_or,List.any_eq_true,ne_eq,not_false_eq_true,forall_const]
  refine exists_congr (fun day => and_congr_right (fun mem => ?_))
  simp only [plain day mem,weekdayOfReal real low high,decide_eq_true_eq]

def OnDayOfMonth (d : LocalDate) (day : ByDay) : Prop :=
  weekdayAt d.number = day.weekday ∧ ∀ n, day.ordinal = some n →
    Nth (dayNumber d.year d.month 1) (dayNumber d.year d.month (monthLength d.year d.month)) n d.number

theorem memMonthDates {year month : Int} {d : LocalDate} (first : 1 ≤ year) (low : 1 ≤ month) (high : month ≤ 12)
    (inside : dayNumber year month (monthLength year month) ≤ latest) :
    d ∈ monthDates year month ↔ d.Real ∧ d.year = year ∧ d.month = month := by
  have length := monthLengthBounds year month
  simp only [monthDates,daysInMonthReal first low high inside,Option.getD_some,List.mem_map,List.mem_range]
  constructor
  · rintro ⟨i,lt,rfl⟩
    exact ⟨⟨low,high,by simp only; omega,by simp only; omega⟩,rfl,rfl⟩
  · rintro ⟨⟨-,-,one,last⟩,rfl,rfl⟩
    refine ⟨(d.day - 1).toNat,by omega,?_⟩
    rw [show (((d.day - 1).toNat : Nat) : Int) + 1 = d.day by omega]

theorem memMonthDay {year month : Int} {d : LocalDate} {day : ByDay} (first : 1 ≤ year) (low : 1 ≤ month)
    (high : month ≤ 12) (inside : dayNumber year month (monthLength year month) ≤ latest) :
    d ∈ expandOne (monthDates year month) day ↔
      d.Real ∧ d.year = year ∧ d.month = month ∧ OnDayOfMonth d day := by
  have length := monthLengthBounds year month
  have start := Inside.bounds (d := ⟨year,month,1⟩) ⟨⟨low,high,by simp only; omega,by simp only; omega⟩,first,inside⟩
  have whole : dayNumber year month 1 + (monthLength year month).toNat - 1 =
      dayNumber year month (monthLength year month) := by
    simp only [dayNumber]
    omega
  simp only [Date.number] at start
  rw [monthDatesReal first low high inside,memExpandOne start.1 (by rw [whole]; exact inside),whole,
    ← monthDatesReal first low high inside,memMonthDates first low high inside]
  constructor
  · rintro ⟨⟨real,rfl,rfl⟩,on⟩
    exact ⟨real,rfl,rfl,on⟩
  · rintro ⟨real,rfl,rfl,on⟩
    exact ⟨⟨real,rfl,rfl⟩,on⟩

theorem compareReal {a b : LocalDate} (realA : a.Real) (realB : b.Real) (lowA : earliest ≤ a.number)
    (lowB : earliest ≤ b.number) (highA : a.number ≤ latest) (highB : b.number ≤ latest) :
    compareLocalDates a b = some (a.number - b.number) := by
  simp [compareLocalDates,toEpochDayReal realA lowA highA,toEpochDayReal realB lowB highB]

theorem dayLimitMonth {d : LocalDate} {byDay : List ByDay} (i : Inside d) :
    matchesByDay (some d) byDay = true ↔ (byDay ≠ [] → ∃ day ∈ byDay, OnDayOfMonth d day) := by
  by_cases none : byDay = []
  · simp [matchesByDay,none]
  simp only [matchesByDay,none,decide_false,Bool.false_or,List.any_eq_true,ne_eq,not_false_eq_true,forall_const]
  refine exists_congr (fun day => and_congr_right (fun _ => ?_))
  obtain ⟨low,high⟩ := i.bounds
  cases ordinal : day.ordinal with
  | none => simp [OnDayOfMonth,ordinal,weekdayOfReal i.real low high]
  | some n =>
    simp only [expandByDay,List.flatMap_singleton,List.any_eq_true,decide_eq_true_eq,
      memMonthDay i.first i.real.1 i.real.2.1 i.last]
    constructor
    · rintro ⟨e,⟨real,year,month,on⟩,same⟩
      have inside : Inside e := ⟨real,year ▸ i.first,by rw [year,month]; exact i.last⟩
      rw [compareReal real i.real inside.bounds.1 low inside.bounds.2 high] at same
      have equal : e = d := numberInjective real i.real (by have := Option.some.inj same; omega)
      exact equal ▸ on
    · intro on
      exact ⟨d,⟨i.real,rfl,rfl,on⟩,by rw [compareReal i.real i.real low low high high]; simp⟩

end FamilyPlatform.Recurrence
