import FamilyPlatform.Lib.Counting
import FamilyPlatform.Kernel.Crowded

/-! How many occurrences a window can hold, from any real first date on: at most one on each
date, but for a week that the leap day of the year 0 has told wrong. -/
namespace FamilyPlatform.ZonedTime
open Civil

/- A reading of the leap day of the year 0 is told one day late, and no other one is. -/

theorem localAsUtcMsLeap {l : LocalDateTime} {ms : Int} (clock : LocalDateTime.Clock l) (leap : l.toDate = ⟨0,2,29⟩)
    (found : localAsUtcMs l = some ms) : ms = secondOf l * 1000 + msPerDay := by
  obtain ⟨low,high⟩ := clockBounds clock
  have parts : l.year = 0 ∧ l.month = 2 ∧ l.day = 29 := by
    refine ⟨?_,?_,?_⟩ <;> rw [leap]
  have sum : makeDay 1900 2 29 * msPerDay + l.hour * 3600000 + l.minute * 60000 + l.second * 1000 =
      -25508 * msPerDay + clockMs l := by
    rw [show makeDay 1900 2 29 = -25508 by decide]
    unfold clockMs
    omega
  have day : (-25508 * msPerDay + clockMs l) / msPerDay = -25508 := by
    unfold msPerDay at *
    omega
  have rest : (-25508 * msPerDay + clockMs l) % msPerDay = clockMs l := by
    unfold msPerDay at *
    omega
  have century : (if 0 ≤ (0 : Int) ∧ (0 : Int) ≤ 99 then 1900 + (0 : Int) else 0) = 1900 := by decide
  have march : makeDay 0 (dateOf (-25508)).month (dateOf (-25508)).day = -719468 := by decide
  have number : l.toDate.number = -719469 := by rw [leap]; decide
  simp only [localAsUtcMs,dateUtc,parts,century,sum,bind,Option.bind_eq_some_iff] at found
  obtain ⟨utc,clip,full⟩ := found
  rw [timeClipSource clip,if_pos (by decide),setUtcFullYear,day,rest,march] at full
  rw [timeClipSource full,← secondMs,number]
  unfold msPerDay
  omega

theorem localAsUtcMsOther {l : LocalDateTime} {ms : Int} (real : l.toDate.Real) (clock : LocalDateTime.Clock l)
    (other : l.toDate ≠ ⟨0,2,29⟩) (found : localAsUtcMs l = some ms) : ms = secondOf l * 1000 := by
  rw [localAsUtcMsClip real clock other] at found
  rw [timeClipSource found,secondMs]

theorem localAsUtcMsNear {l : LocalDateTime} {ms : Int} (real : l.toDate.Real) (clock : LocalDateTime.Clock l)
    (found : localAsUtcMs l = some ms) : secondOf l * 1000 ≤ ms ∧ ms ≤ secondOf l * 1000 + msPerDay := by
  by_cases leap : l.toDate = ⟨0,2,29⟩
  · rw [localAsUtcMsLeap clock leap found]
    unfold msPerDay
    omega
  · rw [localAsUtcMsOther real clock leap found]
    unfold msPerDay
    omega

def toldDay (n : Int) : Int := if n = leapDay then n + 1 else n

theorem toEpochDayTold {d : LocalDate} {n : Int} (real : d.Real) (found : toEpochDay d = some n) :
    n = toldDay d.number := by
  obtain ⟨ms,source,rfl⟩ := Option.map_eq_some_iff.mp found
  have clock : LocalDateTime.Clock (atTime d 0 0 0) := by simp [LocalDateTime.Clock,atTime]
  have second : secondOf (atTime d 0 0 0) = d.number * 86400 := by simp [secondOf,atTime]
  unfold toldDay
  by_cases leap : d = ⟨0,2,29⟩
  · have ms_ := localAsUtcMsLeap (l := atTime d 0 0 0) clock leap source
    have number : d.number = leapDay := by rw [leap]; decide
    rw [second] at ms_
    rw [if_pos number]
    unfold msPerDay at *
    omega
  · have ms_ := localAsUtcMsOther (l := atTime d 0 0 0) real clock leap source
    have number : d.number ≠ leapDay := fun is => leap (numberInjective real (by decide) (is.trans (by decide)))
    rw [second] at ms_
    rw [if_neg number]
    unfold msPerDay at *
    omega

theorem toEpochDayReads {n : Int} (low : -latest ≤ n) (high : n < latest) :
    toEpochDay (dateOf n) = some (toldDay n) := by
  have real := dateOfReal n
  have clock : LocalDateTime.Clock (atTime (dateOf n) 0 0 0) := by simp [LocalDateTime.Clock,atTime]
  have second : secondOf (atTime (dateOf n) 0 0 0) = n * 86400 := by simp [secondOf,atTime]
  suffices found : ∃ day, toEpochDay (dateOf n) = some day by
    obtain ⟨day,found⟩ := found
    rw [found,toEpochDayTold real found,numberOfDate]
  by_cases leap : dateOf n = ⟨0,2,29⟩
  · rw [leap]
    exact ⟨_,show toEpochDay ⟨0,2,29⟩ = some (-719468) by decide⟩
  · have clip := localAsUtcMsClip (l := atTime (dateOf n) 0 0 0) real clock leap
    rw [secondMs,second,timeClipSome (by unfold latest msPerDay at *; omega) (by unfold latest msPerDay at *; omega)] at clip
    exact ⟨_,Option.map_eq_some_iff.mpr ⟨_,clip,rfl⟩⟩

variable {zone : Zone}

theorem offsetMsAtNear {i o : Int} (found : offsetMsAt zone i = some o) :
    -54000000 ≤ o ∧ o ≤ 54000000 + msPerDay := by
  simp only [offsetMsAt,bind,Option.bind_eq_some_iff] at found
  obtain ⟨reading,read,ms,utc,is⟩ := found
  obtain ⟨real,clock⟩ := instantToLocalReal read
  have near := localAsUtcMsNear real clock utc
  have second : i / 1000 * 1000 / 1000 = i / 1000 := by omega
  have there := instantToLocalSource read
  rw [second] at there
  have at_ : secondOf reading = i / 1000 + zone.offsetAt (i / 1000) := by
    rw [there]
    exact secondOfReading _
  have bound := zone.steady.bounded (i / 1000)
  rw [at_] at near
  cases is
  omega

theorem localToInstantNear {reading : LocalDateTime} {i : Int} (real : reading.toDate.Real)
    (clock : LocalDateTime.Clock reading) (found : localToInstant zone reading = some i) :
    (reading.toDate.number - 2) * msPerDay ≤ i ∧ i < (reading.toDate.number + 3) * msPerDay := by
  simp only [localToInstant,bind,Option.bind_eq_some_iff] at found
  obtain ⟨pivot,utc,before,first,after,second,_,-,_,-,found⟩ := found
  have near := localAsUtcMsNear real clock utc
  have nearFirst := offsetMsAtNear first
  have nearSecond := offsetMsAtNear second
  obtain ⟨low,high⟩ := clockBounds clock
  rw [← secondMs] at near
  have cases : i = pivot - before ∨ i = pivot - after := by
    split at found <;> cases found
    · rcases min_choice (pivot - before) (pivot - after) with is | is
      · exact .inl is
      · exact .inr is
    · exact .inl rfl
    · exact .inr rfl
    · exact .inl rfl
  unfold msPerDay at *
  rcases cases with is | is <;> omega

end FamilyPlatform.ZonedTime

namespace FamilyPlatform.Recurrence
open ZonedTime Civil

theorem daysInMonthNear {year month length : Int} (low : 1 ≤ month) (high : month ≤ 12)
    (found : daysInMonth year month = some length) : length ≤ monthLength year month := by
  have told (full : Int) : ∀ utc, timeClip (makeDay full (month + 1) 0 * msPerDay + 0 * 3600000 + 0 * 60000 + 0 * 1000) = some utc →
      (utcDate utc).day = monthLength full month := by
    intro utc clip
    have date := dateOfNumber (lastDayReal full low high)
    simp only [Date.number] at date
    rw [timeClipSource clip,utcDate,makeDayLast full low high]
    simp only [Int.zero_mul,Int.add_zero]
    rw [Int.mul_ediv_cancel _ (by decide),date]
  obtain ⟨utc,clip,rfl⟩ := Option.map_eq_some_iff.mp found
  rw [told _ utc clip]
  split
  · rename_i century
    by_cases zero : year = 0
    · subst zero
      have short : leap 1900 = false := by decide
      have long : leap 0 = true := by decide
      by_cases february : month = 2
      · simp [monthLength,short,long,february]
      · simp [monthLength,february]
    · exact le_of_eq (monthLengthCentury (.inl (by omega)) century.2)
  · exact le_refl _

theorem MonthDay.real {year month : Int} {d : LocalDate} (there : MonthDay year month d) (low : 1 ≤ month)
    (high : month ≤ 12) : d.Real := by
  obtain ⟨rfl,rfl,length,found,one,last⟩ := there
  exact ⟨low,high,one,le_trans last (daysInMonthNear low high found)⟩

section
variable {rule : RecurrenceRule} {start : LocalDate}

theorem addDaysNear {d e : LocalDate} {n : Int} (found : addDays d n = some e) :
    ∃ day, toEpochDay d = some day ∧ e = dateOf (day + n) := by
  simp only [addDays,bind,Option.bind_eq_some_iff] at found
  obtain ⟨day,told,added⟩ := found
  exact ⟨day,told,(fromEpochDaySource added).1⟩

def place (rule : RecurrenceRule) (d : LocalDate) : Int :=
  match rule.freq with
  | .daily => d.number
  | .weekly => 0
  | .monthly => d.year * 12 + d.month
  | .yearly => d.year

theorem placed (real : start.Real) (freq : rule.freq ≠ .weekly) : ∃ first, ∀ k d, some d ∈ periodDates rule start k →
    d.Real ∧ ∃ interval : Nat, rule.interval = .finite interval ∧ place rule d = first + k * interval := by
  cases is : rule.freq with
  | weekly => exact absurd is freq
  | daily =>
    refine ⟨(toEpochDay start).getD 0,fun k d mem => ?_⟩
    simp only [periodDates,is] at mem
    have source := List.mem_singleton.mp (List.mem_filter.mp mem).1
    obtain ⟨step,found,added⟩ := Option.bind_eq_some_iff.mp source.symm
    obtain ⟨interval,finite,rfl⟩ := stepSource found
    obtain ⟨day,told,rfl⟩ := addDaysNear added
    exact ⟨dateOfReal _,interval,finite,by simp only [place,is,numberOfDate,told,Option.getD_some]⟩
  | monthly =>
    refine ⟨start.year * 12 + start.month,fun k d mem => ?_⟩
    simp only [periodDates,is] at mem
    obtain ⟨x,source,same⟩ := List.mem_map.mp mem
    cases same
    obtain ⟨interval,finite,all⟩ := monthlyOf source
    obtain ⟨⟨y,m⟩,both⟩ : ∃ both, addMonths start.year start.month (k * interval) = both := ⟨_,rfl⟩
    have there := all y m both
    obtain ⟨year,month⟩ := Prod.mk.inj both
    refine ⟨there.real (by omega) (by omega),interval,finite,?_⟩
    simp only [place,is,there.year,there.month]
    omega
  | yearly =>
    refine ⟨start.year,fun k d mem => ?_⟩
    simp only [periodDates,is] at mem
    obtain ⟨x,source,same⟩ := List.mem_map.mp mem
    cases same
    obtain ⟨interval,finite,m,low,high,there⟩ := yearlyOf real source
    exact ⟨there.real low high,interval,finite,by simp only [place,is,there.year]⟩

def firstWeek (rule : RecurrenceRule) (start : LocalDate) : Option Int :=
  (startOfWeek start rule.wkst).bind toEpochDay

def weekDays (rule : RecurrenceRule) (start : LocalDate) : List Weekday :=
  if rule.byDay ≠ [] then rule.byDay.map ByDay.weekday else [weekdayOf (some start)]

theorem weekPlaced (freq : rule.freq = .weekly) {k : Nat} {d : LocalDate} (mem : some d ∈ periodDates rule start k) :
    d.Real ∧ ∃ interval : Nat, ∃ first, rule.interval = .finite interval ∧ firstWeek rule start = some first ∧
      (toldDay (first + 7 * (k * interval)) ≤ d.number ∧ d.number ≤ toldDay (first + 7 * (k * interval)) + 6) ∧
      weekdayOf (some d) ∈ weekDays rule start ∧ matchesByMonth (some d) rule.byMonth := by
  simp only [periodDates,freq] at mem
  obtain ⟨source,chosen⟩ := List.mem_filter.mp mem
  obtain ⟨i,within,source⟩ := List.mem_map.mp source
  have lt := List.mem_range.mp within
  simp only [bind,Option.bind_eq_some_iff] at source
  obtain ⟨week,⟨first,starts,step,found,begun⟩,added⟩ := source
  obtain ⟨interval,finite,rfl⟩ := stepSource found
  obtain ⟨day,told,rfl⟩ := addDaysNear begun
  obtain ⟨day',told',rfl⟩ := addDaysNear added
  have is := toEpochDayTold (dateOfReal _) told'
  rw [numberOfDate,show day + k * interval * 7 = day + 7 * (k * interval) by omega] at is
  refine ⟨dateOfReal _,interval,day,finite,by rw [firstWeek,starts,Option.bind_some,told],?_,?_⟩
  · rw [numberOfDate,← is]
    omega
  · simpa [weekDays] using chosen

theorem candidateSource {k : Nat} {date : Option LocalDate} (mem : date ∈ candidatesForPeriod rule start k) :
    date ∈ periodDates rule start k := by
  obtain ⟨e,source,rfl⟩ := List.mem_map.mp mem
  exact ((byEpochDaySource _).2 e ((List.perm_insertionSort notAfter _).mem_iff.mp source)).1

theorem candidatesDistinct (k : Nat) : (candidatesForPeriod rule start k).Nodup := by
  have perm := List.perm_insertionSort notAfter (byEpochDay (periodDates rule start k))
  have keys := (perm.map Prod.fst).nodup_iff.mpr (byEpochDaySource _).1
  rw [List.nodup_iff_pairwise_ne,List.pairwise_map] at keys
  unfold candidatesForPeriod
  rw [List.nodup_iff_pairwise_ne,List.pairwise_map]
  refine keys.imp_of_mem (fun {a b} memA memB other same => other ?_)
  rw [((byEpochDaySource _).2 a (perm.mem_iff.mp memA)).2,((byEpochDaySource _).2 b (perm.mem_iff.mp memB)).2,same]

theorem candidatesFew (k : Nat) : (candidatesForPeriod rule start k).length ≤ (periodDates rule start k).length := by
  have sub : (candidatesForPeriod rule start k) ⊆ periodDates rule start k := fun _ mem => candidateSource mem
  exact (List.subperm_of_subset (candidatesDistinct k) sub).length_le

theorem byEpochDayKeys {dates : List (Option LocalDate)} {date : Option LocalDate} (mem : date ∈ dates) :
    date.bind toEpochDay ∈ (byEpochDay dates).map Prod.fst := by
  have fold : ∀ (todo : List (Option LocalDate)) (entries : List (Option Int × Option LocalDate)) (key : Option Int),
      key ∈ entries.map Prod.fst ∨ (∃ date ∈ todo, key = date.bind toEpochDay) →
      key ∈ (todo.foldl (fun entries date => setEntry (date.bind toEpochDay) date entries) entries).map Prod.fst := by
    intro todo
    induction todo with
    | nil => simp
    | cons d rest ih =>
      intro entries key there
      refine ih _ key ?_
      rw [setEntryKeys]
      rcases there with old | ⟨date,source,is⟩
      · refine .inl ?_
        split
        · exact old
        · exact List.mem_append_left _ old
      · rcases List.mem_cons.mp source with rfl | later
        · refine .inl ?_
          rw [is]
          split
          · assumption
          · simp
        · exact .inr ⟨date,later,is⟩
  exact fold dates [] _ (.inr ⟨date,mem,rfl⟩)

theorem candidateOf {k : Nat} {d : LocalDate} {day : Int} (mem : some d ∈ periodDates rule start k)
    (told : toEpochDay d = some day) (only : ∀ e, some e ∈ periodDates rule start k → toEpochDay e = some day → e = d) :
    some d ∈ candidatesForPeriod rule start k := by
  obtain ⟨entry,source,key⟩ := List.mem_map.mp (byEpochDayKeys mem)
  obtain ⟨there,is⟩ := (byEpochDaySource _).2 entry source
  refine List.mem_map.mpr ⟨entry,(List.perm_insertionSort notAfter _).mem_iff.mpr source,?_⟩
  rw [key,Option.bind_some,told] at is
  obtain ⟨e,second,told'⟩ := Option.bind_eq_some_iff.mp is.symm
  rw [second] at there ⊢
  rw [only e there told']

def PeriodsIncrease (rule : RecurrenceRule) (start : LocalDate) : Prop := ∀ k k' d d', k < k' →
  some d ∈ candidatesForPeriod rule start k → some d' ∈ candidatesForPeriod rule start k' → d.number < d'.number

/- Each week, where one starts on that leap day: the last date that is told of it is the
first one of the next, and is chosen. -/
def WeekTwice (rule : RecurrenceRule) (start : LocalDate) : Prop :=
  rule.freq = .weekly ∧ rule.interval = .finite 1 ∧
    (∃ first, firstWeek rule start = some first ∧ first < leapDay ∧ (leapDay - first) % 7 = 0) ∧
    weekdayOf (some ⟨0,3,7⟩) ∈ weekDays rule start ∧ matchesByMonth (some ⟨0,3,7⟩) rule.byMonth

theorem firstWeekTold {first : Int} (starts : firstWeek rule start = some first) :
    ∃ n, first = toldDay n ∧ -latest ≤ first := by
  obtain ⟨week,begun,told⟩ := Option.bind_eq_some_iff.mp starts
  simp only [startOfWeek,bind,Option.bind_eq_some_iff] at begun
  obtain ⟨index,-,added⟩ := begun
  obtain ⟨day,-,rfl⟩ := addDaysNear added
  refine ⟨_,toEpochDayTold (dateOfReal _) told,?_⟩
  obtain ⟨ms,utc,rfl⟩ := Option.map_eq_some_iff.mp told
  simp only [localAsUtcMs,bind,Option.bind_eq_some_iff] at utc
  obtain ⟨full,clip,last⟩ := utc
  have range : -(latest * msPerDay) ≤ ms := by
    split at last
    · rw [timeClipSource last]
      exact (timeClipRange last).1
    · cases last
      rw [timeClipSource clip]
      exact (timeClipRange clip).1
  unfold latest msPerDay at *
  omega

theorem weekComes (freq : rule.freq = .weekly) {k : Nat} {first : Int} (finite : rule.interval = .finite 1)
    (starts : firstWeek rule start = some first) (before : first + 7 * k < 0) (last : toldDay (first + 7 * k) ≤ leapDay + 7)
    (till : leapDay + 7 ≤ toldDay (first + 7 * k) + 6) (chosen : weekdayOf (some ⟨0,3,7⟩) ∈ weekDays rule start)
    (month : matchesByMonth (some ⟨0,3,7⟩) rule.byMonth) : some ⟨0,3,7⟩ ∈ periodDates rule start k := by
  obtain ⟨n,-,low⟩ := firstWeekTold starts
  obtain ⟨week,begun,told⟩ := Option.bind_eq_some_iff.mp starts
  have small : k * 1 ≤ 2 ^ 53 := by
    unfold latest at low
    omega
  have added : addDays week (((k * 1 : Nat) : Int) * 7) = some (dateOf (first + 7 * k)) := by
    simp only [addDays,told,bind,Option.bind_some]
    rw [show first + ((k * 1 : Nat) : Int) * 7 = first + 7 * k by push_cast; ring]
    exact fromEpochDayReal (by omega) (by unfold latest; omega)
  have reads : toEpochDay (dateOf (first + 7 * k)) = some (toldDay (first + 7 * k)) :=
    toEpochDayReads (by omega) (by unfold latest; omega)
  simp only [periodDates,freq,weeklyCandidates,begun,stepReal finite small,bind,Option.bind_some,added]
  refine List.mem_filter.mpr ⟨List.mem_map.mpr ⟨(leapDay + 7 - toldDay (first + 7 * k)).toNat,
    List.mem_range.mpr (by omega),?_⟩,Bool.and_eq_true_iff.mpr ⟨decide_eq_true chosen,month⟩⟩
  simp only [addDays,reads,bind,Option.bind_some]
  rw [show toldDay (first + 7 * k) + ((leapDay + 7 - toldDay (first + 7 * k)).toNat : Int) = leapDay + 7 by omega]
  rw [fromEpochDayReal (by decide) (by decide)]
  decide

/- In the week of the missing leap day, 7 March comes in two periods on end. -/
theorem weekComesTwice (twice : WeekTwice rule start) : ¬ PeriodsIncrease rule start := by
  rintro increase
  obtain ⟨freq,finite,⟨first,starts,before,whole⟩,chosen,month⟩ := twice
  obtain ⟨k,is⟩ : ∃ k : Nat, first + 7 * k = leapDay := ⟨((leapDay - first) / 7).toNat,by omega⟩
  have comes : ∀ j : Nat, j = k ∨ j = k + 1 → some ⟨0,3,7⟩ ∈ candidatesForPeriod rule start j := by
    intro j here
    have mem := @weekComes rule start freq j first finite starts (by unfold leapDay at *; omega)
      (by unfold toldDay; split <;> omega) (by unfold toldDay; split <;> omega) chosen month
    refine candidateOf mem (show toEpochDay ⟨0,3,7⟩ = some (leapDay + 7) by decide) (fun e there told => ?_)
    have real' := (weekPlaced freq there).1
    have day := toEpochDayTold real' told
    have number : Date.number ⟨0,3,7⟩ = leapDay + 7 := by decide
    refine numberInjective real' (by decide) ?_
    unfold toldDay at day
    split at day <;> omega
  exact absurd (increase k (k + 1) _ _ (Nat.lt_succ_self k) (comes k (.inl rfl)) (comes (k + 1) (.inr rfl)))
    (lt_irrefl _)

section
variable {k k' : Nat} {d d' : LocalDate} (less : k < k') (mem : some d ∈ candidatesForPeriod rule start k)
  (mem' : some d' ∈ candidatesForPeriod rule start k')
include less mem mem'

theorem weeksOrdered (once : ¬ WeekTwice rule start) (freq : rule.freq = .weekly) : d.number < d'.number := by
  by_contra later
  have le : d'.number ≤ d.number := Int.not_lt.mp later
  obtain ⟨realD,interval,first,finite,starts,inside,chosen,month⟩ := weekPlaced freq (candidateSource mem)
  obtain ⟨realD',interval',first',finite',starts',inside',-⟩ := weekPlaced freq (candidateSource mem')
  rw [finite] at finite'
  rw [starts] at starts'
  cases finite'
  cases starts'
  obtain ⟨n,told,-⟩ := firstWeekTold starts
  have positive := intervalPositive finite
  have more : ((k : Int) + 1) * interval ≤ k' * interval :=
    Int.mul_le_mul_of_nonneg_right (by omega) (by omega)
  rw [Int.add_mul] at more
  unfold toldDay at inside inside' told
  have single : interval = 1 := by split at inside <;> split at inside' <;> omega
  subst single
  have leap : first + 7 * k = leapDay ∧ d.number = leapDay + 7 := by
    split at inside <;> split at inside' <;> omega
  have date : d = ⟨0,3,7⟩ := numberInjective realD (by decide) (leap.2.trans (by decide))
  refine once ⟨freq,finite,⟨first,starts,?_,by omega⟩,date ▸ chosen,date ▸ month⟩
  split at told <;> omega

theorem placesOrdered (real : start.Real) (freq : rule.freq ≠ .weekly) : d.number < d'.number := by
  by_contra later
  have le : d'.number ≤ d.number := Int.not_lt.mp later
  obtain ⟨base,all⟩ := @placed rule start real freq
  obtain ⟨realD,interval,finite,is⟩ := all k d (candidateSource mem)
  obtain ⟨realD',interval',finite',is'⟩ := all k' d' (candidateSource mem')
  rw [finite] at finite'
  cases finite'
  have positive := intervalPositive finite
  have more : (k : Int) * interval < k' * interval := by
    exact_mod_cast Nat.mul_lt_mul_of_pos_right less positive
  have year := yearMono realD' realD le
  have month := monthMono realD' realD le
  unfold place at is is'
  cases which : rule.freq <;> simp only [which] at is is' <;> omega

end

theorem periodsIncrease (real : start.Real) : PeriodsIncrease rule start ↔ ¬ WeekTwice rule start := by
  refine ⟨fun increase twice => weekComesTwice twice increase,fun once k k' d d' less mem mem' => ?_⟩
  by_cases freq : rule.freq = .weekly
  · exact weeksOrdered less mem mem' once freq
  · exact placesOrdered less mem mem' real freq

end

section
variable {input : ExpandInput} {x : ExpandedOccurrence}

theorem readingSource {date : Option LocalDate} (found : occurrenceAt input date = some x) :
    date = some x.reading.toDate ∧
      x.reading = atTime x.reading.toDate input.dtstart.hour input.dtstart.minute input.dtstart.second ∧
      localToInstant input.zone x.reading = some x.instant := by
  simp only [occurrenceAt,bind,Option.bind_eq_some_iff] at found
  obtain ⟨d,rfl,found⟩ := found
  split at found
  · cases found
  obtain ⟨instant,resolved,is⟩ := Option.bind_eq_some_iff.mp found
  cases is
  exact ⟨rfl,rfl,resolved⟩

theorem occursDate {k : Nat} (mem : x ∈ occurrencesIn input k) :
    some x.reading.toDate ∈ periodDates input.rule input.dtstart.toDate k := by
  obtain ⟨date,candidate,found⟩ := List.mem_filterMap.mp mem
  obtain ⟨rfl,-⟩ := readingSource found
  exact candidateSource candidate

def earlyDay (window : Window) : Int := window.start / msPerDay - 2

theorem datesNear (clock : LocalDateTime.Clock input.dtstart) (short : input.window.stop - input.window.start ≤ 800 * msPerDay)
    {k : Nat} (mem : x ∈ occurrencesIn input k) (real : x.reading.toDate.Real) (inside : within input.window x) :
    earlyDay input.window ≤ x.reading.toDate.number ∧
      x.reading.toDate.number < earlyDay input.window + (805 : Nat) := by
  obtain ⟨date,-,found⟩ := List.mem_filterMap.mp mem
  obtain ⟨-,reads,resolved⟩ := readingSource found
  have clocked : LocalDateTime.Clock x.reading := by
    rw [reads]
    exact clock
  have near := localToInstantNear real clocked resolved
  simp only [within,Bool.and_eq_true,decide_eq_true_eq] at inside
  obtain ⟨since,till⟩ := inside
  unfold earlyDay msPerDay at *
  generalize input.window.start = start at *
  generalize input.window.stop = stop at *
  generalize x.instant = instant at *
  change (_ : Int) ≤ _ at since
  change (_ : Int) < _ at till
  change (_ : Int) - _ ≤ _ at short
  omega

theorem datesDistinct (real : input.dtstart.toDate.Real) (freq : input.rule.freq ≠ .weekly) (first length : Nat) :
    (((List.range' first length).flatMap (occurrencesIn input)).map (fun x => x.reading.toDate.number)).Nodup ∧
      ∀ x ∈ (List.range' first length).flatMap (occurrencesIn input), x.reading.toDate.Real := by
  obtain ⟨base,all⟩ := placed real freq
  have source : ∀ k, ∀ x ∈ occurrencesIn input k, x.reading.toDate.Real ∧ ∃ interval : Nat,
      input.rule.interval = .finite interval ∧ place input.rule x.reading.toDate = base + k * interval :=
    fun k x mem => all k _ (occursDate mem)
  refine ⟨?_,fun x mem => ?_⟩
  · rw [List.nodup_iff_pairwise_ne,List.pairwise_map,List.pairwise_flatMap]
    refine ⟨fun k _ => ?_,?_⟩
    · rw [occurrencesIn,List.pairwise_filterMap]
      refine (candidatesDistinct k).imp_of_mem (fun {a b} memA memB other x isX y isY same => other ?_)
      have realX := (source k x (List.mem_filterMap.mpr ⟨a,memA,isX⟩)).1
      have realY := (source k y (List.mem_filterMap.mpr ⟨b,memB,isY⟩)).1
      rw [(readingSource isX).1,(readingSource isY).1,numberInjective realX realY same]
    · refine (List.pairwise_lt_range').imp (fun {k k'} less x memX y memY same => ?_)
      obtain ⟨realX,interval,finite,placeX⟩ := source k x memX
      obtain ⟨realY,interval',finite',placeY⟩ := source k' y memY
      rw [finite] at finite'
      cases finite'
      rw [numberInjective realX realY same,placeY] at placeX
      have positive := intervalPositive finite
      have more : (k : Int) * interval < k' * interval := by
        exact_mod_cast Nat.mul_lt_mul_of_pos_right less positive
      omega
  · obtain ⟨k,-,mem⟩ := List.mem_flatMap.mp mem
    exact (source k x mem).1

theorem weekFew (freq : input.rule.freq = .weekly) (k : Nat) : (occurrencesIn input k).length ≤ 7 := by
  refine le_trans (List.length_filterMap_le _ _) (le_trans (candidatesFew k) ?_)
  simp only [periodDates,freq,weeklyCandidates]
  exact le_trans (List.length_filter_le _ _) (by simp)

variable (real : input.dtstart.toDate.Real) (clock : LocalDateTime.Clock input.dtstart)
  (short : input.window.stop - input.window.start ≤ 800 * msPerDay)
include real clock short

theorem windowFew (first length : Nat) :
    (((List.range' first length).flatMap (occurrencesIn input)).filter (within input.window)).length ≤ maxOccurrences := by
  by_cases freq : input.rule.freq = .weekly
  · refine le_trans (@Counting.blocksFew _ _ _ _ 116 (weekFew freq) (fun k k' x memX y memY inX inY => ?_) _
      List.nodup_range') (by decide)
    obtain ⟨realX,interval,first,finite,starts,placeX,-⟩ := weekPlaced freq (occursDate memX)
    obtain ⟨realY,interval',first',finite',starts',placeY,-⟩ := weekPlaced freq (occursDate memY)
    rw [finite] at finite'
    rw [starts] at starts'
    cases finite'
    cases starts'
    unfold toldDay at placeX placeY
    have nearX := datesNear clock short memX realX inX
    have nearY := datesNear clock short memY realY inY
    by_contra far
    have positive := intervalPositive finite
    have more : ((k : Int) + 116) * interval ≤ k' * interval :=
      Int.mul_le_mul_of_nonneg_right (by omega) (by omega)
    rw [Int.add_mul] at more
    omega
  · obtain ⟨distinct,reals⟩ := datesDistinct real freq first length
    refine le_trans (@Counting.distinctKeys _ _ (fun x : ExpandedOccurrence => x.reading.toDate.number)
      (earlyDay input.window) 805 ?_ (fun x mem => ?_)) (by decide)
    · exact distinct.sublist (List.filter_sublist.map _)
    · obtain ⟨source,inside⟩ := List.mem_filter.mp mem
      obtain ⟨k,-,mem⟩ := List.mem_flatMap.mp source
      exact datesNear clock short mem (reals x source) inside

theorem expandNotDense (limit : input.limit = maxOccurrences) {error : DomainError} :
    expand input ≠ some (.error error) := by
  intro found
  simp only [expand,periods,bind,Option.bind_eq_some_iff] at found
  obtain ⟨pass,⟨windowEnd,-,from_,-,walked⟩,result⟩ := found
  cases pass with
  | next progress => cases result
  | returned result' =>
    cases result
    cases from_ with
    | none => cases walked
    | some first =>
      obtain ⟨-,length,-,pre,x,post,there,refuses⟩ := walkRefused walked
      have few := windowFew real clock short first length
      have full := refuses.full
      rw [there,List.filter_append,List.filter_cons_of_pos refuses.inside,List.length_append,List.length_cons] at few
      simp only [Progress.and,List.nil_append] at full
      omega

end
end FamilyPlatform.Recurrence
