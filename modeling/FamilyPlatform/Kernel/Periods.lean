import FamilyPlatform.Kernel.Candidates
import FamilyPlatform.Kernel.Resolution

/-! The dates of a period, also at the end of the range of `Date` and for the rules that
the declared dates leave out: they are real, of that period, and in order. -/
namespace FamilyPlatform.ZonedTime
open Civil

theorem fromEpochDaySource {n : Int} {d : LocalDate} (found : fromEpochDay n = some d) :
    d = dateOf n ∧ n ≤ latest := by
  obtain ⟨ms,clip,rfl⟩ := Option.map_eq_some_iff.mp found
  unfold timeClip at clip
  split at clip <;> cases clip
  rw [utcDate,Int.mul_ediv_cancel n (by decide)]
  unfold msPerDay latest at *
  exact ⟨rfl,by omega⟩

theorem addDaysSource {d e : LocalDate} {n : Int} (real : d.Real) (low : earliest ≤ d.number)
    (found : addDays d n = some e) : e = dateOf (d.number + n) ∧ d.number + n ≤ latest := by
  simp only [addDays,bind,Option.bind_eq_some_iff] at found
  obtain ⟨m,epochDay,added⟩ := found
  obtain ⟨rfl,-⟩ := toEpochDaySource real low epochDay
  exact fromEpochDaySource added

theorem compareSource {a b : LocalDate} {n : Int} (realA : a.Real) (realB : b.Real) (lowA : earliest ≤ a.number)
    (lowB : earliest ≤ b.number) (found : compareLocalDates a b = some n) : n = a.number - b.number := by
  simp only [compareLocalDates,bind,Option.bind_eq_some_iff] at found
  obtain ⟨left,ofA,right,ofB,is⟩ := found
  rw [← Option.some.inj is,(toEpochDaySource realA lowA ofA).1,(toEpochDaySource realB lowB ofB).1]

theorem daysInMonthSource {year month length : Int} (first : 1 ≤ year) (low : 1 ≤ month) (high : month ≤ 12)
    (found : daysInMonth year month = some length) :
    length = monthLength year month ∧ dayNumber year month (monthLength year month) ≤ latest := by
  by_cases inside : dayNumber year month (monthLength year month) ≤ latest
  · rw [daysInMonthReal first low high inside] at found
    exact ⟨(Option.some.inj found).symm,inside⟩
  · exfalso
    have late : ¬ (0 ≤ year ∧ year ≤ 99) := by
      rintro ⟨-,century⟩
      obtain ⟨-,till⟩ := realOffset (lastDayReal year low high)
      have := yearStartMono (show year + 1 ≤ 100 by omega)
      have : yearStart 100 = -683003 := by decide
      simp only [Date.number,latest] at *
      omega
    simp only [daysInMonth,dateUtc,if_neg late,makeDayLast year low high,timeClip] at found
    rw [if_neg (by unfold latest msPerDay at *; omega)] at found
    cases found

end FamilyPlatform.ZonedTime

namespace FamilyPlatform.Recurrence
open ZonedTime Civil

theorem stepSource {interval : JsNumber} {k : Nat} {n : Int} (found : stepOf interval k = some n) :
    ∃ m : Nat, interval = .finite m ∧ n = k * m := by
  cases interval with
  | infinity => cases found
  | finite m =>
    simp only [stepOf] at found
    split at found <;> cases found
    exact ⟨m,rfl,rfl⟩

/- The dates that come of one month, as long as the source takes it to be. -/

structure MonthDay (y m : Int) (d : LocalDate) : Prop where
  year : d.year = y
  month : d.month = m
  day : ∃ length, daysInMonth y m = some length ∧ 1 ≤ d.day ∧ d.day ≤ length

section
variable {year month : Int} {d : LocalDate}

theorem monthDatesOf (mem : d ∈ monthDates year month) : MonthDay year month d := by
  obtain ⟨i,within,rfl⟩ := List.mem_map.mp mem
  have lt := List.mem_range.mp within
  cases found : daysInMonth year month with
  | none => simp [found] at lt
  | some length =>
    rw [found,Option.getD_some] at lt
    exact ⟨rfl,rfl,length,found,by simp only; omega,by simp only; omega⟩

theorem resolveOf {value : Int} (found : resolveMonthDay year month value = some d) : MonthDay year month d := by
  simp only [resolveMonthDay,bind,Option.bind_eq_some_iff] at found
  obtain ⟨length,there,day⟩ := found
  generalize (if 0 < value then value else length + value + 1) = n at day
  split at day <;> cases day
  rename_i within
  exact ⟨rfl,rfl,length,there,within⟩

theorem onMonthDaysOf {rule : RecurrenceRule} (mem : d ∈ onMonthDays rule year month) : MonthDay year month d := by
  obtain ⟨source,-⟩ := List.mem_filter.mp mem
  obtain ⟨value,-,found⟩ := List.mem_filterMap.mp source
  exact resolveOf found

theorem onStartDayOf {start : LocalDate} (found : onStartDay start year month = some d) : MonthDay year month d :=
  resolveOf (Option.filter_eq_some_iff.mp found).1

structure OfMonth (year month : Int) (d : LocalDate) : Prop where
  real : d.Real
  year : d.year = year
  month : d.month = month
  high : d.number ≤ latest

theorem MonthDay.ofMonth (there : MonthDay year month d) (first : 1 ≤ year) (low : 1 ≤ month) (high : month ≤ 12) :
    OfMonth year month d := by
  obtain ⟨rfl,rfl,length,found,one,last⟩ := there
  obtain ⟨rfl,inside⟩ := daysInMonthSource first low high found
  have real : Date.Real d := ⟨low,high,one,last⟩
  exact ⟨real,rfl,rfl,le_trans (numberLast real).2 inside⟩

end

theorem expandByDayScope {scope : List LocalDate} {byDay : List ByDay} {d : LocalDate}
    (mem : d ∈ expandByDay scope byDay) : d ∈ scope := by
  obtain ⟨day,-,source⟩ := List.mem_flatMap.mp mem
  unfold expandOne at source
  cases ordinal : day.ordinal with
  | none =>
    rw [ordinal] at source
    exact (List.mem_filter.mp source).1
  | some n =>
    rw [ordinal] at source
    have picked := Option.mem_toList.mp source
    simp only [pick] at picked
    generalize (if 0 < n then n - 1 else _ + n) = index at picked
    split at picked
    · cases picked
    · exact (List.mem_filter.mp (List.mem_of_getElem? picked)).1

theorem monthlyOf {rule : RecurrenceRule} {start d : LocalDate} {k : Nat}
    (mem : d ∈ monthlyCandidates rule start (stepOf rule.interval k)) : ∃ interval : Nat,
    rule.interval = .finite interval ∧ ∀ y m, addMonths start.year start.month (k * interval) = (y,m) → MonthDay y m d := by
  cases found : stepOf rule.interval k with
  | none => simp [monthlyCandidates,found] at mem
  | some step =>
    obtain ⟨interval,finite,rfl⟩ := stepSource found
    refine ⟨interval,finite,fun y m both => ?_⟩
    simp only [monthlyCandidates,found,both] at mem
    split at mem
    · cases mem
    · split at mem
      · exact onMonthDaysOf mem
      · split at mem
        · exact monthDatesOf (expandByDayScope mem)
        · exact onStartDayOf (Option.mem_toList.mp mem)

theorem yearlyOf {rule : RecurrenceRule} {start d : LocalDate} {k : Nat} (real : start.Real)
    (mem : d ∈ yearlyCandidates rule start (stepOf rule.interval k)) : ∃ interval : Nat,
    rule.interval = .finite interval ∧ ∃ m, 1 ≤ m ∧ m ≤ 12 ∧ MonthDay (start.year + k * interval) m d := by
  cases found : stepOf rule.interval k with
  | none => simp [yearlyCandidates,found] at mem
  | some step =>
    obtain ⟨interval,finite,rfl⟩ := stepSource found
    have months := rule.parsed.month
    refine ⟨interval,finite,?_⟩
    simp only [yearlyCandidates,found] at mem
    split at mem
    · obtain ⟨m,source,on⟩ := List.mem_flatMap.mp mem
      have bounds : 1 ≤ m ∧ m ≤ 12 := by
        split at source
        · exact months m source
        · obtain ⟨i,within,rfl⟩ := List.mem_map.mp source
          have := List.mem_range.mp within
          omega
      exact ⟨m,bounds.1,bounds.2,onMonthDaysOf on⟩
    · split at mem
      · split at mem
        · obtain ⟨m,source,on⟩ := List.mem_flatMap.mp mem
          exact ⟨m,(months m source).1,(months m source).2,monthDatesOf (expandByDayScope on)⟩
        · obtain ⟨i,within,source⟩ := List.mem_flatMap.mp (expandByDayScope mem)
          have := List.mem_range.mp within
          exact ⟨_,by omega,by omega,monthDatesOf source⟩
      · obtain ⟨m,source,on⟩ := List.mem_filterMap.mp mem
        have bounds : 1 ≤ m ∧ m ≤ 12 := by
          split at source
          · exact months m source
          · rw [List.mem_singleton.mp source]
            exact ⟨real.1,real.2.1⟩
        exact ⟨m,bounds.1,bounds.2,onStartDayOf on⟩

structure InPeriod (rule : RecurrenceRule) (start : LocalDate) (k : Nat) (d : LocalDate) : Prop where
  real : d.Real
  low : -719170 ≤ d.number
  high : d.number ≤ latest
  period : ∃ interval : Nat, rule.interval = .finite interval ∧ periodIndex rule start d = k * interval

section
variable {rule : RecurrenceRule} {start : LocalDate} (s : StartDay start)
include s

theorem dailyPeriod {k : Nat} {d : LocalDate} (freq : rule.freq = .daily)
    (mem : some d ∈ dailyCandidates rule start (stepOf rule.interval k)) : InPeriod rule start k d := by
  have low := s.low
  have source := List.mem_singleton.mp (List.mem_filter.mp mem).1
  obtain ⟨step,found,added⟩ := Option.bind_eq_some_iff.mp source.symm
  obtain ⟨interval,finite,rfl⟩ := stepSource found
  obtain ⟨rfl,high⟩ := addDaysSource s.real (by unfold earliest; omega) added
  have positive : (0 : Int) ≤ k * interval := by exact_mod_cast Nat.zero_le (k * interval)
  refine ⟨dateOfReal _,by rw [numberOfDate]; omega,by rw [numberOfDate]; exact high,interval,finite,?_⟩
  simp only [periodIndex,freq,numberOfDate]
  omega

theorem weeklyPeriod {k : Nat} {d : LocalDate} (freq : rule.freq = .weekly)
    (mem : some d ∈ weeklyCandidates rule start (stepOf rule.interval k)) : InPeriod rule start k d := by
  have low := s.low
  have high := s.last
  have bounds := weekStartBounds rule.wkst start.number
  obtain ⟨i,within,source⟩ := List.mem_map.mp (List.mem_filter.mp mem).1
  have lt := List.mem_range.mp within
  simp only [startOfWeekReal s.real low (by omega),bind,Option.bind_some,
    Option.bind_eq_some_iff] at source
  obtain ⟨weekStart,⟨step,found,begun⟩,added⟩ := source
  obtain ⟨interval,finite,rfl⟩ := stepSource found
  have positive : (0 : Int) ≤ k * interval := by exact_mod_cast Nat.zero_le (k * interval)
  obtain ⟨rfl,-⟩ := addDaysSource (dateOfReal _) (by rw [numberOfDate]; unfold earliest; omega) begun
  obtain ⟨rfl,last⟩ := addDaysSource (dateOfReal _) (by simp only [numberOfDate]; unfold earliest; omega) added
  simp only [numberOfDate] at last
  refine ⟨dateOfReal _,by simp only [numberOfDate]; omega,by simp only [numberOfDate]; exact last,interval,finite,?_⟩
  simp only [periodIndex,freq,numberOfDate]
  exact sameWeek.mpr ⟨by omega,by omega⟩

omit s in
theorem OfMonth.inPeriod {year month : Int} {d : LocalDate} {k interval : Nat} (of : OfMonth year month d)
    (first : 1 ≤ year) (finite : rule.interval = .finite interval) (period : periodIndex rule start d = k * interval) :
    InPeriod rule start k d := by
  refine ⟨of.real,?_,of.high,interval,finite,period⟩
  obtain ⟨since,-⟩ := realOffset of.real
  have := yearStartMono first
  have : yearStart 1 = -719162 := by decide
  rw [of.year] at since
  omega

theorem monthlyPeriod {k : Nat} {d : LocalDate} (freq : rule.freq = .monthly)
    (mem : d ∈ monthlyCandidates rule start (stepOf rule.interval k)) : InPeriod rule start k d := by
  have january := s.real.1
  have year := s.first
  obtain ⟨interval,finite,all⟩ := monthlyOf mem
  have positive : (0 : Int) ≤ k * interval := by exact_mod_cast Nat.zero_le (k * interval)
  obtain ⟨⟨y,m⟩,both⟩ : ∃ both, addMonths start.year start.month (k * interval) = both := ⟨_,rfl⟩
  have there := all y m both
  obtain ⟨is,at_⟩ := Prod.mk.inj both
  have first : 1 ≤ y := by omega
  have of := there.ofMonth first (by omega) (by omega)
  refine of.inPeriod first finite ?_
  simp only [periodIndex,freq,of.year,of.month]
  omega

theorem yearlyPeriod {k : Nat} {d : LocalDate} (freq : rule.freq = .yearly)
    (mem : d ∈ yearlyCandidates rule start (stepOf rule.interval k)) : InPeriod rule start k d := by
  have year := s.first
  obtain ⟨interval,finite,m,low,high,there⟩ := yearlyOf s.real mem
  have positive : (0 : Int) ≤ k * interval := by exact_mod_cast Nat.zero_le (k * interval)
  have first : 1 ≤ start.year + k * interval := by omega
  have of := there.ofMonth first low high
  refine of.inPeriod first finite ?_
  simp only [periodIndex,freq,of.year]
  omega

theorem memPeriodDates {k : Nat} {d : LocalDate} (mem : some d ∈ periodDates rule start k) :
    InPeriod rule start k d := by
  unfold periodDates at mem
  cases freq : rule.freq <;> rw [freq] at mem
  · exact dailyPeriod s freq mem
  · exact weeklyPeriod s freq mem
  · obtain ⟨x,source,same⟩ := List.mem_map.mp mem
    exact monthlyPeriod s freq (Option.some.inj same ▸ source)
  · obtain ⟨x,source,same⟩ := List.mem_map.mp mem
    exact yearlyPeriod s freq (Option.some.inj same ▸ source)

end

theorem byEpochDaySource (dates : List (Option LocalDate)) :
    ((byEpochDay dates).map Prod.fst).Nodup ∧
      ∀ e ∈ byEpochDay dates, e.2 ∈ dates ∧ e.1 = e.2.bind toEpochDay := by
  have fold : ∀ (todo : List (Option LocalDate)) (entries : List (Option Int × Option LocalDate)),
      (entries.map Prod.fst).Nodup → (∀ d ∈ todo, d ∈ dates) →
      (∀ e ∈ entries, e.2 ∈ dates ∧ e.1 = e.2.bind toEpochDay) →
      ((todo.foldl (fun entries date => setEntry (date.bind toEpochDay) date entries) entries).map
        Prod.fst).Nodup ∧
      ∀ e ∈ todo.foldl (fun entries date => setEntry (date.bind toEpochDay) date entries) entries,
        e.2 ∈ dates ∧ e.1 = e.2.bind toEpochDay := by
    intro todo
    induction todo with
    | nil => exact fun _ distinct _ each => ⟨distinct,each⟩
    | cons d rest ih =>
      intro entries distinct todo each
      refine ih (setEntry (d.bind toEpochDay) d entries) ?_ (fun x mem => todo x (List.mem_cons_of_mem d mem)) ?_
      · exact setEntryNodup distinct
      · intro e mem
        rcases (memSetEntry distinct).mp mem with rfl | ⟨old,-⟩
        · exact ⟨todo d List.mem_cons_self,rfl⟩
        · exact each e old
  exact fold dates [] (by simp) (fun _ mem => mem) (by simp)

section
variable {rule : RecurrenceRule} {start : LocalDate} (s : StartDay start)
include s

theorem memCandidatesPeriod {k : Nat} {d : LocalDate} (mem : some d ∈ candidatesForPeriod rule start k) :
    InPeriod rule start k d := by
  obtain ⟨e,source,same⟩ := List.mem_map.mp mem
  have entry := (List.perm_insertionSort notAfter _).mem_iff.mp source
  exact memPeriodDates s (same ▸ ((byEpochDaySource _).2 e entry).1)

theorem candidatesOrdered (k : Nat) :
    ((candidatesForPeriod rule start k).filterMap id).Pairwise (fun a b => a.number < b.number) := by
  have perm := List.perm_insertionSort notAfter (byEpochDay (periodDates rule start k))
  have ordered := List.pairwise_insertionSort notAfter (byEpochDay (periodDates rule start k))
  have keys := (perm.map Prod.fst).nodup_iff.mpr (byEpochDaySource _).1
  rw [List.nodup_iff_pairwise_ne,List.pairwise_map] at keys
  have each : ∀ e ∈ (byEpochDay (periodDates rule start k)).insertionSort notAfter, ∀ d, e.2 = some d →
      e.1 = some d.number := by
    intro e source d is
    obtain ⟨mem,key⟩ := (byEpochDaySource _).2 e (perm.mem_iff.mp source)
    have inPeriod := memPeriodDates s (is ▸ mem)
    rw [key,is,Option.bind_some,toEpochDayReal inPeriod.real (by have := inPeriod.low; unfold earliest; omega)
      inPeriod.high]
  unfold candidatesForPeriod
  rw [List.filterMap_map,List.pairwise_filterMap]
  refine (ordered.and keys).imp_of_mem (fun {a b} memA memB both d isD d' isD' => ?_)
  have keyA := each a memA d isD
  have keyB := each b memB d' isD'
  have le : d.number ≤ d'.number := by
    have := both.1
    simpa only [notAfter,keyA,keyB] using this
  have ne : d.number ≠ d'.number := fun same => both.2 (by rw [keyA,keyB,same])
  omega

end

theorem yearMono {d e : LocalDate} (realD : d.Real) (realE : e.Real) (le : d.number ≤ e.number) : d.year ≤ e.year := by
  by_contra less
  obtain ⟨since,-⟩ := realOffset realD
  obtain ⟨-,till⟩ := realOffset realE
  have := yearStartMono (show e.year + 1 ≤ d.year by omega)
  omega

theorem monthMono {d e : LocalDate} (realD : d.Real) (realE : e.Real) (le : d.number ≤ e.number) :
    d.year * 12 + d.month ≤ e.year * 12 + e.month := by
  have year := yearMono realD realE le
  have := realD.2.1
  have := realE.1
  rcases Int.lt_or_eq_of_le year with less | same
  · omega
  · by_contra after
    have months := @beforeMonthMono e.year _ _ realE.1 (show e.month < d.month by omega) realD.2.1
    obtain ⟨-,-,-,last⟩ := realE
    have one := realD.2.2.1
    simp only [Date.number,dayNumber,same] at le
    omega

theorem periodIndexMono {rule : RecurrenceRule} {start d e : LocalDate} (realD : d.Real) (realE : e.Real)
    (le : d.number ≤ e.number) : periodIndex rule start d ≤ periodIndex rule start e := by
  have year := yearMono realD realE le
  have month := monthMono realD realE le
  cases freq : rule.freq <;> simp only [periodIndex,freq]
  · omega
  · unfold weekStart
    have := weekdayIndexBounds rule.wkst
    omega
  · omega
  · omega

theorem periodOrder {rule : RecurrenceRule} {start d e : LocalDate} {k k' : Nat} (inK : InPeriod rule start k d)
    (inK' : InPeriod rule start k' e) (less : k < k') : d.number < e.number := by
  obtain ⟨interval,finite,period⟩ := inK.period
  obtain ⟨interval',finite',period'⟩ := inK'.period
  cases JsNumber.finite.inj (finite.symm.trans finite')
  by_contra notLess
  have mono := @periodIndexMono rule start _ _ inK'.real inK.real (by omega)
  have positive := intervalPositive finite
  rw [period,period'] at mono
  have : k * interval < k' * interval := Nat.mul_lt_mul_of_pos_right less positive
  have : ((k * interval : Nat) : Int) < (k' * interval : Nat) := by exact_mod_cast this
  push_cast at this
  omega

theorem wholePeriodsSource {n unit m : Int} {interval : JsNumber} (is : wholePeriods n unit interval = m)
    (one : 1 ≤ m) : ∃ i : Nat, interval = .finite i ∧ m * (unit * i) ≤ n := by
  cases interval with
  | infinity =>
    simp only [wholePeriods] at is
    omega
  | finite i =>
    refine ⟨i,rfl,?_⟩
    subst is
    refine Int.ediv_mul_le n (fun zero => ?_)
    rw [wholePeriods,zero,Int.ediv_zero] at one
    omega

theorem startOfWeekSource {date week : LocalDate} {wkst : Weekday} (found : startOfWeek date wkst = some week) :
    ∃ n, toEpochDay date = some n ∧ week = dateOf (weekStart wkst n) := by
  simp only [startOfWeek,isoWeekdayIndex,bind,Option.bind_eq_some_iff,Option.map_eq_some_iff] at found
  obtain ⟨index,⟨n,epochDay,rfl⟩,added⟩ := found
  simp only [addDays,bind,epochDay,Option.bind_some] at added
  refine ⟨n,epochDay,(fromEpochDaySource added).1.trans (congrArg dateOf ?_)⟩
  unfold weekStart
  omega

theorem firstDayReal (year : Int) {month : Int} (low : 1 ≤ month) (high : month ≤ 12) : Date.Real ⟨year,month,1⟩ := by
  have := monthLengthBounds year month
  exact ⟨low,high,Int.le_refl 1,by simp only; omega⟩

/- A date of the common era that lies a number of whole periods on from the first. -/
def PeriodsOn (rule : RecurrenceRule) (start date : LocalDate) (n : Int) : Prop :=
  -719162 ≤ date.number ∧ ∃ interval : Nat, rule.interval = .finite interval ∧ n * interval ≤ periodIndex rule start date

/- A date that is not after any of a period or of a later one. -/
def PeriodBegins (rule : RecurrenceRule) (start : LocalDate) (k : Nat) (first : LocalDate) : Prop :=
  first.Real ∧ earliest ≤ first.number ∧ ∀ k' ≥ k, ∀ d, InPeriod rule start k' d → first.number ≤ d.number

theorem countedForward {rule : RecurrenceRule} {n : Int} {interval : Nat} (finite : rule.interval = .finite interval)
    (one : 1 ≤ n) : 1 ≤ n * interval := by
  have positive := intervalPositive finite
  exact one.trans (le_mul_of_one_le_right (by omega) (by omega))

theorem laterIndex {rule : RecurrenceRule} {start d : LocalDate} {k k' interval : Nat}
    (finite : rule.interval = .finite interval) (after : k' ≥ k) (inPeriod : InPeriod rule start k' d) :
    (k : Int) * interval ≤ periodIndex rule start d := by
  obtain ⟨i',finite',period⟩ := inPeriod.period
  cases JsNumber.finite.inj (finite.symm.trans finite')
  rw [period]
  exact_mod_cast Nat.mul_le_mul_right interval after

section
variable {rule : RecurrenceRule} {start : LocalDate} (s : StartDay start)
include s

theorem startDay {n : Int} (there : toEpochDay start = some n) : n = start.number := by
  have low := s.low
  exact (toEpochDaySource s.real (by unfold earliest; omega) there).1

theorem daysBetweenSource {date : LocalDate} {n : Int} (freq : rule.freq = .daily) (real : date.Real)
    (found : periodsBetween rule start date = some n) (one : 1 ≤ n) : PeriodsOn rule start date n := by
  have low := s.low
  simp only [periodsBetween,freq,bind,Option.bind_eq_some_iff,Option.some.injEq,compareLocalDates] at found
  obtain ⟨days,⟨left,ofDate,right,ofStart,rfl⟩,is⟩ := found
  obtain ⟨i,finite,le⟩ := wholePeriodsSource is one
  have := countedForward finite one
  have := startDay s ofStart
  rw [Int.one_mul] at le
  have := toEpochDayAny real ofDate (by omega)
  refine ⟨by omega,i,finite,?_⟩
  simp only [periodIndex,freq]
  omega

theorem weeksBetweenSource {date : LocalDate} {n : Int} (freq : rule.freq = .weekly) (real : date.Real)
    (found : periodsBetween rule start date = some n) (one : 1 ≤ n) : PeriodsOn rule start date n := by
  have low := s.low
  simp only [periodsBetween,freq,bind,Option.bind_eq_some_iff,Option.some.injEq,compareLocalDates] at found
  obtain ⟨week,ofDate,first,ofStart,days,⟨left,atWeek,right,atFirst,rfl⟩,is⟩ := found
  obtain ⟨i,finite,le⟩ := wholePeriodsSource is one
  have := countedForward finite one
  have weeks : n * (7 * i) = 7 * (n * i) := by ring
  rw [weeks] at le
  have bounds := weekStartBounds rule.wkst start.number
  obtain ⟨m,dateDay,rfl⟩ := startOfWeekSource ofDate
  obtain ⟨m',there,rfl⟩ := startOfWeekSource ofStart
  obtain rfl := startDay s there
  have right' := (toEpochDaySource (dateOfReal _) (by rw [numberOfDate]; unfold earliest; omega) atFirst).1
  rw [numberOfDate] at right'
  have left' := toEpochDayAny (dateOfReal _) atWeek (by omega)
  rw [numberOfDate] at left'
  have bounds' := weekStartBounds rule.wkst m
  have exact_ := toEpochDayAny real dateDay (by omega)
  subst exact_
  refine ⟨by omega,i,finite,?_⟩
  simp only [periodIndex,freq]
  omega

/- By months and by years, what is counted brings the date to a year that is not before the first. -/
theorem yearsOn {date : LocalDate} {n : Int} (real : date.Real) (since : start.year ≤ date.year)
    (counted : ∃ interval : Nat, rule.interval = .finite interval ∧ n * interval ≤ periodIndex rule start date) :
    PeriodsOn rule start date n := by
  have year := s.first
  obtain ⟨from_,-⟩ := realOffset real
  have newEra : yearStart 1 = -719162 := by decide
  have := yearStartMono (show 1 ≤ date.year by omega)
  exact ⟨by omega,counted⟩

theorem periodsBetweenSource {date : LocalDate} {n : Int} (real : date.Real)
    (found : periodsBetween rule start date = some n) (one : 1 ≤ n) : PeriodsOn rule start date n := by
  cases freq : rule.freq with
  | daily => exact daysBetweenSource s freq real found one
  | weekly => exact weeksBetweenSource s freq real found one
  | monthly =>
    simp only [periodsBetween,freq,Option.some.injEq] at found
    obtain ⟨i,finite,le⟩ := wholePeriodsSource found one
    have := countedForward finite one
    have january := s.real.1
    have december := real.2.1
    rw [Int.one_mul] at le
    exact yearsOn s real (by omega) ⟨i,finite,by simpa only [periodIndex,freq] using le⟩
  | yearly =>
    simp only [periodsBetween,freq,Option.some.injEq] at found
    obtain ⟨i,finite,le⟩ := wholePeriodsSource found one
    have := countedForward finite one
    rw [Int.one_mul] at le
    exact yearsOn s real (by omega) ⟨i,finite,by simpa only [periodIndex,freq] using le⟩

section
variable {k interval : Nat} {first : LocalDate} (finite : rule.interval = .finite interval)
include finite

theorem dayBegins (freq : rule.freq = .daily) (found : addDays start (k * interval) = some first) :
    PeriodBegins rule start k first := by
  have low := s.low
  obtain ⟨rfl,-⟩ := addDaysSource s.real (by unfold earliest; omega) found
  have positive : (0 : Int) ≤ k * interval := by exact_mod_cast Nat.zero_le (k * interval)
  refine ⟨dateOfReal _,by rw [numberOfDate]; unfold earliest; omega,fun k' after d inPeriod => ?_⟩
  have := laterIndex finite after inPeriod
  simp only [periodIndex,freq] at this
  rw [numberOfDate]
  omega

theorem weekBegins (freq : rule.freq = .weekly)
    (found : (startOfWeek start rule.wkst).bind (fun week => addDays week (k * interval * 7)) = some first) :
    PeriodBegins rule start k first := by
  have low := s.low
  have high := s.last
  simp only [startOfWeekReal s.real low (by omega),Option.bind_some] at found
  have bounds := weekStartBounds rule.wkst start.number
  have positive : (0 : Int) ≤ k * interval := by exact_mod_cast Nat.zero_le (k * interval)
  obtain ⟨rfl,-⟩ := addDaysSource (dateOfReal _) (by rw [numberOfDate]; unfold earliest; omega) found
  refine ⟨dateOfReal _,by simp only [numberOfDate]; unfold earliest; omega,fun k' after d inPeriod => ?_⟩
  have := laterIndex finite after inPeriod
  simp only [periodIndex,freq] at this
  have bounds' := weekStartBounds rule.wkst d.number
  simp only [numberOfDate]
  omega

theorem monthBegins (freq : rule.freq = .monthly) {y m : Int}
    (both : addMonths start.year start.month (k * interval) = (y,m)) : PeriodBegins rule start k ⟨y,m,1⟩ := by
  have january := s.real.1
  have month := s.real.2.1
  have year := s.first
  have newEra : yearStart 1 = -719162 := by decide
  have positive : (0 : Int) ≤ k * interval := by exact_mod_cast Nat.zero_le (k * interval)
  obtain ⟨is,at_⟩ := Prod.mk.inj both
  have real := firstDayReal y (show 1 ≤ m by omega) (by omega)
  obtain ⟨since,-⟩ := realOffset real
  have := yearStartMono (show 1 ≤ y by omega)
  refine ⟨real,by unfold earliest; simp only at since; omega,fun k' after d inPeriod => ?_⟩
  by_contra less
  have mono := monthMono inPeriod.real real (by omega)
  have index := laterIndex finite after inPeriod
  have := inPeriod.real.1
  have := inPeriod.real.2.1
  simp only [periodIndex,freq] at index mono
  have day := (numberLast inPeriod.real).1
  rw [show d.year = y by omega,show d.month = m by omega] at day
  exact less day

theorem yearBegins (freq : rule.freq = .yearly) : PeriodBegins rule start k ⟨start.year + k * interval,1,1⟩ := by
  have year := s.first
  have newEra : yearStart 1 = -719162 := by decide
  have positive : (0 : Int) ≤ k * interval := by exact_mod_cast Nat.zero_le (k * interval)
  have real := firstDayReal (start.year + k * interval) (Int.le_refl 1) (by omega)
  obtain ⟨since,-⟩ := realOffset real
  have := yearStartMono (show 1 ≤ start.year + k * interval by omega)
  refine ⟨real,by unfold earliest; simp only at since; omega,fun k' after d inPeriod => ?_⟩
  obtain ⟨from_,-⟩ := realOffset inPeriod.real
  have index := laterIndex finite after inPeriod
  simp only [periodIndex,freq] at index
  have := yearStartMono (show start.year + k * interval ≤ d.year by omega)
  simp only [Date.number,dayNumber,beforeJanuary] at *
  omega

end

theorem periodStartSource {k : Nat} {first : LocalDate} (found : periodStart rule start k = some first) :
    PeriodBegins rule start k first := by
  simp only [periodStart,bind,Option.bind_eq_some_iff] at found
  obtain ⟨step,steps,found⟩ := found
  obtain ⟨i,finite,rfl⟩ := stepSource steps
  cases freq : rule.freq <;> simp only [freq] at found
  case daily => exact dayBegins s finite freq found
  case weekly => exact weekBegins s finite freq found
  case monthly =>
    obtain ⟨⟨y,m⟩,both⟩ : ∃ both, addMonths start.year start.month (k * i) = both := ⟨_,rfl⟩
    rw [both] at found
    cases found
    exact monthBegins s finite freq both
  case yearly =>
    cases found
    exact yearBegins s finite freq

end

end FamilyPlatform.Recurrence
