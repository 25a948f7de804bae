import FamilyPlatform.Kernel.Periods

/-! All days of the month limit nothing: BYDAY gives the same dates beside them, as long as
its ordinals count in the months. In a year they count in the months only beside them. -/
namespace FamilyPlatform.Recurrence
open ZonedTime Civil

def allMonthDays : List Int := (List.range 31).map (fun i : Nat => (i : Int) + 1)

theorem memAllMonthDays {value : Int} : value ∈ allMonthDays ↔ 1 ≤ value ∧ value ≤ 31 := by
  simp only [allMonthDays,List.mem_map,List.mem_range]
  constructor
  · rintro ⟨i,less,rfl⟩
    omega
  · rintro ⟨low,high⟩
    exact ⟨(value - 1).toNat,by omega,by omega⟩

theorem someMonthDays : allMonthDays ≠ [] := by decide

theorem allMonthDaysParsed : ∀ day ∈ allMonthDays, day ≠ 0 ∧ day.natAbs ≤ 31 := by decide

def withMonthDays (rule : RecurrenceRule) (freq : rule.freq ≠ .weekly) : RecurrenceRule where
  toRecurrenceRuleProps := { rule.toRecurrenceRuleProps with byMonthDay := allMonthDays }
  parsed := {
    interval := rule.parsed.interval
    count := rule.parsed.count
    single := rule.parsed.single
    ordinal := rule.parsed.ordinal
    monthDay := allMonthDaysParsed
    weekly := fun weekly => absurd weekly freq
    month := rule.parsed.month }

/- The dates that the source has of a month, and so of a year: no 29th of February in the year 0, and no month that is
not in the range of `Date` to its end. -/

section
variable {year month : Int} {d : LocalDate} (first : 0 ≤ year) (low : 1 ≤ month) (high : month ≤ 12)

structure Told (d : LocalDate) : Prop where
  real : d.Real
  told : toEpochDay d = some d.number

theorem MonthDay.told (there : MonthDay year month d) (first : 0 ≤ year) (low : 1 ≤ month) (high : month ≤ 12) :
    Told d := by
  have start := yearStartMono first
  have zero : yearStart 0 = -719528 := by decide
  rcases Int.lt_or_eq_of_le first with later | rfl
  · obtain ⟨real,is,-,last⟩ := there.ofMonth later low high
    obtain ⟨since,-⟩ := realOffset real
    rw [is] at since
    refine ⟨real,toEpochDayOther real (fun same => ?_) (by unfold latest; omega) last⟩
    rw [same] at is
    exact absurd is (by simp only; omega)
  · obtain ⟨is,rfl,length,found,one,last⟩ := there
    rw [daysInMonthFull (Int.le_refl 0) (by decide) low high] at found
    obtain rfl := Option.some.inj found
    have length : monthLength (fullYear 0) d.month = if d.month = 2 then 28 else monthLength 0 d.month := by
      by_cases february : d.month = 2
      · rw [if_pos february,february]
        decide
      · rw [if_neg february]
        simp [monthLength,february]
    rw [length] at last
    have real : d.Real := by
      refine ⟨low,high,one,le_trans last ?_⟩
      rw [is]
      split
      · exact (monthLengthBounds 0 d.month).1
      · exact Int.le_refl _
    obtain ⟨since,till⟩ := realOffset real
    rw [is] at since till
    have next : yearStart (0 + 1) = -719162 := by decide
    refine ⟨real,toEpochDayOther real (fun same => ?_) (by unfold latest; omega) (by unfold latest; omega)⟩
    rw [same] at last
    exact absurd last (by decide)

theorem memMonthOf : d ∈ monthDates year month ↔ MonthDay year month d := by
  refine ⟨monthDatesOf,?_⟩
  rintro ⟨is,at_,length,found,one,last⟩
  refine List.mem_map.mpr ⟨(d.day - 1).toNat,List.mem_range.mpr ?_,?_⟩
  · rw [found,Option.getD_some]
    omega
  · rw [← is,← at_,show (((d.day - 1).toNat : Nat) : Int) + 1 = d.day by omega]

theorem expandOneSubset {scope : List LocalDate} {day : ByDay} (mem : d ∈ expandOne scope day) : d ∈ scope :=
  @expandByDayScope scope [day] d (by simpa [expandByDay] using mem)

theorem monthDatesOrdered : (monthDates year month).Pairwise (fun d e => d.number < e.number) := by
  simp only [monthDates]
  rw [List.pairwise_map]
  refine List.pairwise_lt_range.imp (fun {i j} less => ?_)
  simp only [Date.number,dayNumber]
  omega

theorem yearDatesOf : d ∈ yearDates year ↔ ∃ m, 1 ≤ m ∧ m ≤ 12 ∧ MonthDay year m d := by
  simp only [yearDates,List.mem_flatMap,List.mem_range,memMonthOf]
  constructor
  · rintro ⟨i,less,there⟩
    exact ⟨(i : Int) + 1,by omega,by omega,there⟩
  · rintro ⟨m,low,high,there⟩
    exact ⟨(m - 1).toNat,by omega,by rwa [show (((m - 1).toNat : Nat) : Int) + 1 = m by omega]⟩

include first low high

theorem onMonthDaysAll {rule : RecurrenceRule} (freq : rule.freq ≠ .weekly) (given : rule.byDay ≠ []) :
    d ∈ onMonthDays (withMonthDays rule freq) year month ↔ d ∈ expandByDay (monthDates year month) rule.byDay := by
  have resolved : (∃ value ∈ allMonthDays, resolveMonthDay year month value = some d) ↔ MonthDay year month d := by
    constructor
    · rintro ⟨value,-,found⟩
      exact resolveOf found
    · intro there
      have real := (there.told first low high).real
      have length := monthLengthBounds d.year d.month
      have last := real.2.2
      obtain ⟨rfl,rfl,length,found,within⟩ := there
      refine ⟨d.day,memAllMonthDays.mpr (by omega),?_⟩
      simp only [resolveMonthDay,found,bind,Option.bind_some]
      rw [if_pos (by omega : 0 < d.day),if_pos within]
  have limited : MonthDay year month d → (matchesByDay (some d) rule.byDay = true ↔
      ∃ day ∈ rule.byDay, d ∈ expandOne (monthDates year month) day) := by
    intro there
    simp only [matchesByDay,given,decide_false,Bool.false_or,List.any_eq_true]
    refine exists_congr (fun day => and_congr_right (fun _ => ?_))
    cases ordinal : day.ordinal with
    | none => simp [expandOne,ordinal,memMonthOf.mpr there]
    | some n =>
      simp only [List.any_eq_true,decide_eq_true_eq,there.year,there.month,expandByDay,List.flatMap_singleton]
      constructor
      · rintro ⟨e,mem,same⟩
        have toldE := (monthDatesOf (expandOneSubset mem)).told first low high
        have told := there.told first low high
        simp only [compareLocalDates,toldE.told,told.told,bind,Option.bind_some,Option.some.injEq] at same
        obtain rfl := numberInjective toldE.real told.real (by omega)
        exact mem
      · intro mem
        have told := there.told first low high
        exact ⟨d,mem,by simp [compareLocalDates,told.told]⟩
  simp only [onMonthDays,List.mem_filter,List.mem_filterMap,expandByDay,List.mem_flatMap]
  change (∃ value ∈ allMonthDays, resolveMonthDay year month value = some d) ∧
    matchesByDay (some d) rule.byDay = true ↔ _
  rw [resolved]
  constructor
  · rintro ⟨there,on⟩
    exact (limited there).mp on
  · rintro ⟨day,mem,on⟩
    have there := monthDatesOf (expandOneSubset on)
    exact ⟨there,(limited there).mpr ⟨day,mem,on⟩⟩

omit low high in
theorem yearDatesOrdered : (yearDates year).Pairwise (fun d e => d.number < e.number) := by
  rw [yearDates,List.pairwise_flatMap]
  refine ⟨fun i mem => ?_,List.pairwise_lt_range.imp_of_mem (fun {i j} memI memJ less d there e there' => ?_)⟩
  · exact monthDatesOrdered
  · have few := List.mem_range.mp memJ
    have ofD := monthDatesOf there
    have ofE := monthDatesOf there'
    have realD := (ofD.told first (by omega) (by omega)).real
    have realE := (ofE.told first (by omega) (by omega)).real
    obtain ⟨yearD,monthD,-⟩ := ofD
    obtain ⟨yearE,monthE,-⟩ := ofE
    have apart := @beforeMonthMono year d.month e.month realD.1 (by omega) realE.2.1
    have lastD := realD.2.2.2
    have firstE := realE.2.2.1
    rw [yearD] at lastD
    simp only [Date.number,dayNumber,yearD,yearE]
    omega

omit low high in
theorem yearDatesTold (mem : d ∈ yearDates year) : Told d := by
  obtain ⟨m,low,high,there⟩ := yearDatesOf.mp mem
  exact there.told first low high

end

/- Of the dates of a year or a month, the n-th of its weekday, or the n-th from the end. -/
def CountsAs (scope : List LocalDate) (n : Int) (d : LocalDate) : Prop :=
  let alike := scope.filter (fun e => weekdayAt e.number = weekdayAt d.number)
  (0 < n ∧ n = (alike.filter (fun e => e.number < d.number)).length + 1) ∨
    (n < 0 ∧ -n = (alike.filter (fun e => d.number < e.number)).length + 1)

section
variable {scope : List LocalDate} {day : ByDay} {d : LocalDate}

theorem Told.weekday (told : Told d) : weekdayOf (some d) = weekdayAt d.number := by
  have index : isoWeekdayIndex d = some ((d.number + 3) % 7) := by
    rw [isoWeekdayIndex,told.told,Option.map_some,Option.some.injEq]
    omega
  simp only [weekdayOf,Option.bind_some,index]
  rfl

theorem memExpandCounted (ordered : scope.Pairwise (fun d e => d.number < e.number)) (told : ∀ e ∈ scope, Told e) :
    d ∈ expandOne scope day ↔ d ∈ scope ∧ weekdayAt d.number = day.weekday ∧
      ∀ n, day.ordinal = some n → CountsAs scope n d := by
  have matching : scope.filter (fun date => decide (weekdayOf (some date) = day.weekday)) =
      scope.filter (fun e => decide (weekdayAt e.number = day.weekday)) :=
    List.filter_congr (fun e mem => by rw [(told e mem).weekday])
  unfold expandOne
  simp only [matching]
  cases ordinal : day.ordinal with
  | none => simp
  | some n =>
    simp only [Option.mem_toList,Option.some.injEq,forall_eq']
    obtain ⟨alike,is⟩ : ∃ alike, scope.filter (fun e => decide (weekdayAt e.number = day.weekday)) = alike := ⟨_,rfl⟩
    have inOrder : alike.Pairwise (fun d e => d.number < e.number) := is ▸ ordered.filter _
    have picked : pick alike n = some d ↔ d ∈ alike ∧
        ((0 < n ∧ n = (alike.filter (fun e => decide (e.number < d.number))).length + 1) ∨
          (n < 0 ∧ -n = (alike.filter (fun e => decide (d.number < e.number))).length + 1)) := by
      simp only [pick]
      obtain ⟨index,counted⟩ : ∃ index : Int, (if 0 < n then n - 1 else alike.length + n) = index := ⟨_,rfl⟩
      rw [counted]
      constructor
      · intro found
        split at found
        · cases found
        obtain ⟨mem,place⟩ := (Weeks.placeInOrder inOrder).mp found
        have both := Weeks.beforeAndAfter inOrder mem
        refine ⟨mem,?_⟩
        split at counted <;> omega
      · rintro ⟨mem,nth⟩
        have both := Weeks.beforeAndAfter inOrder mem
        have positive : ¬ index < 0 := by split at counted <;> omega
        rw [if_neg positive]
        exact (Weeks.placeInOrder inOrder).mpr ⟨mem,by split at counted <;> omega⟩
    rw [is,picked,← is,List.mem_filter,decide_eq_true_eq,and_assoc]
    refine and_congr_right (fun _ => and_congr_right (fun weekday => ?_))
    rw [CountsAs,weekday]

end

theorem sameCandidates {rule other : RecurrenceRule} {start : LocalDate} {k : Nat} {ds es : List LocalDate}
    (dates : periodDates rule start k = ds.map some) (others : periodDates other start k = es.map some)
    (told : ∀ d, d ∈ ds ∨ d ∈ es → Told d) :
    candidatesForPeriod other start k = candidatesForPeriod rule start k ↔ ∀ d, d ∈ es ↔ d ∈ ds := by
  obtain ⟨xs,isX,orderedX,memX⟩ := candidatesReal dates (fun d mem => (told d (.inl mem)).real)
    (fun d mem => (told d (.inl mem)).told)
  obtain ⟨ys,isY,orderedY,memY⟩ := candidatesReal others (fun d mem => (told d (.inr mem)).real)
    (fun d mem => (told d (.inr mem)).told)
  rw [isX,isY]
  constructor
  · intro same d
    have equal := List.map_injective_iff.mpr (Option.some_injective LocalDate) same
    rw [← memX,← memY,equal]
  · intro same
    refine congrArg (List.map some) ?_
    have distinct : ∀ {zs : List LocalDate}, zs.Pairwise (fun a b => a.number < b.number) → zs.Nodup :=
      fun ordered => ordered.imp (fun less is => absurd (is ▸ less) (lt_irrefl _))
    have perm : ys.Perm xs := (List.perm_ext_iff_of_nodup (distinct orderedY) (distinct orderedX)).mpr
      (fun d => by rw [memY,memX,same])
    exact perm.eq_of_pairwise (fun a b _ _ less more => absurd (lt_trans less more) (lt_irrefl _)) orderedY orderedX

def ByOrdinal (rule : RecurrenceRule) (scope : List LocalDate) (d : LocalDate) : Prop :=
  ∃ day ∈ rule.byDay, ∃ n, day.ordinal = some n ∧ weekdayAt d.number = day.weekday ∧ CountsAs scope n d

def Plainly (rule : RecurrenceRule) (d : LocalDate) : Prop :=
  ∃ day ∈ rule.byDay, day.ordinal = none ∧ weekdayAt d.number = day.weekday

/- Where an ordinal counts in the year, it picks the same dates of it as in the months. -/
def ScopesAgree (rule : RecurrenceRule) (year : Int) : Prop :=
  rule.freq = .monthly ∨ rule.byMonth ≠ [] ∨ ∀ d ∈ yearDates year, ¬ Plainly rule d →
    (ByOrdinal rule (yearDates year) d ↔ ByOrdinal rule (monthDates year d.month) d)

theorem memByDayCounted {rule : RecurrenceRule} {scope : List LocalDate} {d : LocalDate}
    (ordered : scope.Pairwise (fun d e => d.number < e.number)) (told : ∀ e ∈ scope, Told e) :
    d ∈ expandByDay scope rule.byDay ↔ d ∈ scope ∧ (Plainly rule d ∨ ByOrdinal rule scope d) := by
  simp only [expandByDay,List.mem_flatMap,memExpandCounted ordered told]
  constructor
  · rintro ⟨day,mem,there,is,on⟩
    refine ⟨there,?_⟩
    cases ordinal : day.ordinal with
    | none => exact .inl ⟨day,mem,ordinal,is⟩
    | some n => exact .inr ⟨day,mem,n,ordinal,is,on n ordinal⟩
  · rintro ⟨there,⟨day,mem,ordinal,is⟩ | ⟨day,mem,n,ordinal,is,on⟩⟩
    · exact ⟨day,mem,there,is,fun n some_ => absurd (ordinal.symm.trans some_) (by simp)⟩
    · exact ⟨day,mem,there,is,fun m some_ => Option.some.inj (ordinal.symm.trans some_) ▸ on⟩

section
variable {rule : RecurrenceRule} {start : LocalDate} {step : Int} (freq : rule.freq ≠ .weekly) (given : rule.byDay ≠ [])
  (none_ : rule.byMonthDay = [])
include given none_

theorem monthlyMonthDays (first : 0 ≤ (addMonths start.year start.month step).1) :
    (∀ d, d ∈ monthlyCandidates (withMonthDays rule freq) start (some step) ↔
      d ∈ monthlyCandidates rule start (some step)) ∧ ∀ d ∈ monthlyCandidates rule start (some step), Told d := by
  obtain ⟨⟨y,m⟩,both⟩ : ∃ both, addMonths start.year start.month step = both := ⟨_,rfl⟩
  obtain ⟨-,at_⟩ := Prod.mk.inj both
  rw [both] at first
  have low : 1 ≤ m := by omega
  have high : m ≤ 12 := by omega
  have dates : monthlyCandidates rule start (some step) =
      if matchesByMonth (some ⟨y,m,1⟩) rule.byMonth then expandByDay (monthDates y m) rule.byDay else [] := by
    cases is : matchesByMonth (some ⟨y,m,1⟩) rule.byMonth <;> simp [monthlyCandidates,both,is,none_,given]
  have others : monthlyCandidates (withMonthDays rule freq) start (some step) =
      if matchesByMonth (some ⟨y,m,1⟩) rule.byMonth then onMonthDays (withMonthDays rule freq) y m else [] := by
    have some_ : (withMonthDays rule freq).byMonthDay ≠ [] := someMonthDays
    have same : (withMonthDays rule freq).byMonth = rule.byMonth := rfl
    cases is : matchesByMonth (some ⟨y,m,1⟩) rule.byMonth <;> simp [monthlyCandidates,both,is,some_,same]
  rw [dates,others]
  split
  · exact ⟨fun d => onMonthDaysAll first low high freq given,
      fun d mem => (monthDatesOf (expandByDayScope mem)).told first low high⟩
  · exact ⟨fun d => Iff.rfl,fun d mem => by cases mem⟩

theorem yearlyDates : yearlyCandidates rule start (some step) =
    if rule.byMonth = [] then expandByDay (yearDates (start.year + step)) rule.byDay
    else rule.byMonth.flatMap (fun month => expandByDay (monthDates (start.year + step) month) rule.byDay) := by
  by_cases any : rule.byMonth = [] <;> simp [yearlyCandidates,none_,given,any]

theorem yearlyMonthDays (first : 0 ≤ start.year + step) (any : rule.byMonth ≠ []) :
    (∀ d, d ∈ yearlyCandidates (withMonthDays rule freq) start (some step) ↔
      d ∈ yearlyCandidates rule start (some step)) ∧ ∀ d ∈ yearlyCandidates rule start (some step), Told d := by
  have months : ∀ month ∈ rule.byMonth, 1 ≤ month ∧ month ≤ 12 := rule.parsed.month
  have others : yearlyCandidates (withMonthDays rule freq) start (some step) =
      rule.byMonth.flatMap (onMonthDays (withMonthDays rule freq) (start.year + step)) := by
    have some_ : (withMonthDays rule freq).byMonthDay ≠ [] := someMonthDays
    have same : (withMonthDays rule freq).byMonth = rule.byMonth := rfl
    simp [yearlyCandidates,some_,same,any]
  rw [yearlyDates given none_,if_neg any,others]
  constructor
  · intro d
    simp only [List.mem_flatMap]
    refine exists_congr (fun month => and_congr_right (fun mem => ?_))
    exact onMonthDaysAll first (months month mem).1 (months month mem).2 freq given
  · intro d mem
    obtain ⟨month,source,there⟩ := List.mem_flatMap.mp mem
    exact (monthDatesOf (expandByDayScope there)).told first (months month source).1 (months month source).2

theorem wholeYear (first : 0 ≤ start.year + step) (any : rule.byMonth = []) (d : LocalDate) :
    (d ∈ yearlyCandidates rule start (some step) ↔ d ∈ yearDates (start.year + step) ∧
      (Plainly rule d ∨ ByOrdinal rule (yearDates (start.year + step)) d)) ∧
    (d ∈ yearlyCandidates (withMonthDays rule freq) start (some step) ↔ d ∈ yearDates (start.year + step) ∧
      (Plainly rule d ∨ ByOrdinal rule (monthDates (start.year + step) d.month) d)) := by
  constructor
  · rw [yearlyDates given none_,if_pos any]
    exact memByDayCounted (yearDatesOrdered first) (fun e mem => yearDatesTold first mem)
  · have others : yearlyCandidates (withMonthDays rule freq) start (some step) =
        ((List.range 12).map (fun i : Nat => (i : Int) + 1)).flatMap
          (onMonthDays (withMonthDays rule freq) (start.year + step)) := by
      have some_ : (withMonthDays rule freq).byMonthDay ≠ [] := someMonthDays
      have same : (withMonthDays rule freq).byMonth = rule.byMonth := rfl
      simp [yearlyCandidates,some_,same,any]
    have counted : ∀ m, 1 ≤ m → m ≤ 12 → (d ∈ onMonthDays (withMonthDays rule freq) (start.year + step) m ↔
        d ∈ monthDates (start.year + step) m ∧ (Plainly rule d ∨ ByOrdinal rule (monthDates (start.year + step) m) d)) :=
      fun m low high => (onMonthDaysAll first low high freq given).trans (memByDayCounted
        monthDatesOrdered (fun e mem => (monthDatesOf mem).told first low high))
    rw [others,List.mem_flatMap,yearDatesOf]
    constructor
    · rintro ⟨m,source,mem⟩
      obtain ⟨i,less,rfl⟩ := List.mem_map.mp source
      have few := List.mem_range.mp less
      obtain ⟨there,on⟩ := (counted ((i : Int) + 1) (by omega) (by omega)).mp mem
      have of := monthDatesOf there
      exact ⟨⟨_,by omega,by omega,of⟩,of.month ▸ on⟩
    · rintro ⟨⟨m,low,high,of⟩,on⟩
      refine ⟨m,List.mem_map.mpr ⟨(m - 1).toNat,List.mem_range.mpr (by omega),by omega⟩,?_⟩
      exact (counted m low high).mpr ⟨memMonthOf.mpr of,of.month ▸ on⟩

end

theorem stepOfPositive {interval : JsNumber} {k : Nat} {step : Int} (is : stepOf interval k = some step) : 0 ≤ step := by
  cases interval with
  | infinity => cases is
  | finite n =>
    simp only [stepOf] at is
    split at is <;> cases is
    positivity

section
variable {rule : RecurrenceRule} {start : LocalDate} {k : Nat} {step : Int} (weekly : rule.freq ≠ .weekly)
  (given : rule.byDay ≠ []) (none_ : rule.byMonthDay = []) (stepped : stepOf rule.interval k = some step)
include given none_ stepped

theorem monthlyLimitNothing (monthly : rule.freq = .monthly) (real : start.Real) (first : 0 ≤ start.year) :
    candidatesForPeriod (withMonthDays rule weekly) start k = candidatesForPeriod rule start k := by
  have positive := stepOfPositive stepped
  have low := real.1
  have high := real.2.1
  have dates : ∀ {other : RecurrenceRule}, other.freq = .monthly → other.interval = rule.interval →
      periodDates other start k = (monthlyCandidates other start (some step)).map some := by
    intro other is interval
    rw [periodDates,interval,stepped,is]
  obtain ⟨same,inDates⟩ := @monthlyMonthDays rule start step weekly given none_ (by simp only [addMonths]; omega)
  refine (sameCandidates (dates monthly rfl) (@dates (withMonthDays rule weekly) monthly rfl) ?_).mpr same
  exact fun d mem => inDates d (mem.elim id (same d).mp)

theorem yearlyLimitNothing (yearly : rule.freq = .yearly) (year : 0 ≤ start.year + step) :
    candidatesForPeriod (withMonthDays rule weekly) start k = candidatesForPeriod rule start k ↔
      ScopesAgree rule (start.year + step) := by
  have dates : ∀ {other : RecurrenceRule}, other.freq = .yearly → other.interval = rule.interval →
      periodDates other start k = (yearlyCandidates other start (some step)).map some := by
    intro other is interval
    rw [periodDates,interval,stepped,is]
  by_cases any : rule.byMonth = []
  · have members := fun d => wholeYear weekly given none_ year any d
    rw [sameCandidates (dates yearly rfl) (@dates (withMonthDays rule weekly) yearly rfl) ?_]
    · have onlyYear : rule.freq ≠ .monthly := by simp [yearly]
      simp only [ScopesAgree,onlyYear,any,ne_eq,not_true_eq_false,false_or]
      constructor
      · intro same d there notPlain
        have both := same d
        rw [(members d).1,(members d).2] at both
        simpa [there,notPlain] using both.symm
      · intro agree d
        rw [(members d).1,(members d).2]
        refine and_congr_right (fun there => ?_)
        by_cases plainly : Plainly rule d
        · simp [plainly]
        · simpa [plainly] using (agree d there plainly).symm
    · rintro d (mem | mem)
      · exact yearDatesTold year ((members d).1.mp mem).1
      · exact yearDatesTold year ((members d).2.mp mem).1
  · obtain ⟨same,inDates⟩ := yearlyMonthDays weekly given none_ year any
    refine ⟨fun _ => .inr (.inl any),fun _ => ?_⟩
    refine (sameCandidates (dates yearly rfl) (@dates (withMonthDays rule weekly) yearly rfl) ?_).mpr same
    exact fun d mem => inDates d (mem.elim id (same d).mp)

end

theorem noStepNoDates {rule : RecurrenceRule} {start : LocalDate} {k : Nat} (stepped : stepOf rule.interval k = none)
    (freq : rule.freq = .monthly ∨ rule.freq = .yearly) : candidatesForPeriod rule start k = [] := by
  rw [candidatesForPeriod,periodDates,stepped]
  rcases freq with is | is <;> rw [is] <;> rfl

/-- The days of all months beside BYDAY change no period, but one of a year in which the ordinals do not pick the same
dates counting in it as counting in its months. -/
theorem monthDaysLimitNothing {rule : RecurrenceRule} {start : LocalDate} {k : Nat}
    (freq : rule.freq = .monthly ∨ rule.freq = .yearly) (weekly : rule.freq ≠ .weekly) (given : rule.byDay ≠ [])
    (none_ : rule.byMonthDay = []) (real : start.Real) (first : 0 ≤ start.year) :
    candidatesForPeriod (withMonthDays rule weekly) start k = candidatesForPeriod rule start k ↔
      ∀ step, stepOf rule.interval k = some step → ScopesAgree rule (start.year + step) := by
  cases stepped : stepOf rule.interval k with
  | none =>
    have others : candidatesForPeriod (withMonthDays rule weekly) start k = [] := noStepNoDates stepped freq
    rw [others,noStepNoDates stepped freq]
    exact ⟨fun _ step is => (by cases is),fun _ => rfl⟩
  | some step =>
    have positive := stepOfPositive stepped
    simp only [Option.some.injEq,forall_eq']
    rcases freq with monthly | yearly
    · exact ⟨fun _ => .inl monthly,fun _ => monthlyLimitNothing weekly given none_ stepped monthly real first⟩
    · exact yearlyLimitNothing weekly given none_ stepped yearly (by omega)

theorem lastFridaysLimited : candidatesForPeriod (withMonthDays lastFriday (by decide)) ⟨2026,1,30⟩ 1 =
    candidatesForPeriod lastFriday ⟨2026,1,30⟩ 1 :=
  (monthDaysLimitNothing (.inl rfl) (by decide) (by decide) rfl (by decide) (by decide)).mpr (fun _ _ => .inl rfl)

def firstMonday : RecurrenceRule where
  freq := .yearly
  interval := .finite 1
  count := none
  «until» := none
  byDay := [⟨.mo,some 1⟩]
  byMonthDay := []
  byMonth := []
  wkst := .mo
  parsed := by constructor <;> simp [JsNumber.atLeastOne]

theorem firstMondaysDiffer : ¬ ∀ (rule : RecurrenceRule) (start : LocalDate) (k : Nat)
    (weekly : rule.freq ≠ .weekly), rule.freq = .monthly ∨ rule.freq = .yearly → rule.byDay ≠ [] →
      rule.byMonthDay = [] → start.Real → 0 ≤ start.year →
        candidatesForPeriod (withMonthDays rule weekly) start k = candidatesForPeriod rule start k := by
  intro all
  have once : candidatesForPeriod firstMonday ⟨2026,1,5⟩ 0 = [some ⟨2026,1,5⟩] := by decide +kernel
  have same := all firstMonday ⟨2026,1,5⟩ 0 (by decide) (.inr rfl) (by decide) rfl (by decide) (by decide)
  have february : some ⟨2026,2,2⟩ ∈ candidatesForPeriod (withMonthDays firstMonday (by decide)) ⟨2026,1,5⟩ 0 := by
    decide +kernel
  rw [same,once] at february
  exact absurd february (by decide)

end FamilyPlatform.Recurrence
