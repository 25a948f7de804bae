import Mathlib.Data.List.Sort
import FamilyPlatform.Kernel.RecurrenceRule

/-! Expanding a rule over a window, period by period, and its first occurrence after
an instant. Where the source throws a RangeError there is no result. -/
namespace FamilyPlatform.Recurrence
open ZonedTime

def maxOccurrences : Nat := 1000
def maxPeriods : Nat := 200000

def weekdayOf (date : Option LocalDate) : Weekday :=
  ((date.bind isoWeekdayIndex).bind (fun index => weekdays[index.toNat]?)).getD .mo

def monthDates (year month : Int) : List LocalDate :=
  let length := (daysInMonth year month).getD 0
  (List.range length.toNat).map (fun i : Nat => ⟨year,month,i + 1⟩)

def yearDates (year : Int) : List LocalDate := (List.range 12).flatMap (fun i : Nat => monthDates year (i + 1))

def resolveMonthDay (year month byMonthDay : Int) : Option LocalDate := do
  let length ← daysInMonth year month
  let day := if 0 < byMonthDay then byMonthDay else length + byMonthDay + 1
  if 1 ≤ day ∧ day ≤ length then some ⟨year,month,day⟩ else none

def pick (matching : List LocalDate) (ordinal : Int) : Option LocalDate :=
  let index := if 0 < ordinal then ordinal - 1 else matching.length + ordinal
  if index < 0 then none else matching[index.toNat]?

def expandOne (scope : List LocalDate) (day : ByDay) : List LocalDate :=
  let matching := scope.filter (fun date => weekdayOf (some date) = day.weekday)
  match day.ordinal with
  | none => matching
  | some ordinal => (pick matching ordinal).toList

def expandByDay (scope : List LocalDate) (byDay : List ByDay) : List LocalDate :=
  byDay.flatMap (expandOne scope)

def matchesByDay (date : Option LocalDate) (byDay : List ByDay) : Bool :=
  byDay = [] || byDay.any (fun day => match day.ordinal, date with
    | none, _ => weekdayOf date = day.weekday
    | some _, some date =>
      (expandByDay (monthDates date.year date.month) [day]).any (fun d => compareLocalDates d date = some 0)
    | some _, none => false)

def matchesByMonthDay (date : Option LocalDate) (byMonthDay : List Int) : Bool :=
  byMonthDay = [] || byMonthDay.any (fun value =>
    (date.bind (fun date => (resolveMonthDay date.year date.month value).filter (fun d => d.day = date.day))).isSome)

def matchesByMonth (date : Option LocalDate) (byMonth : List Int) : Bool :=
  byMonth = [] || (date.map (fun date => decide (date.month ∈ byMonth))).getD false

def weekdayIndex (day : Weekday) : Int := weekdays.idxOf day

def startOfWeek (date : LocalDate) (wkst : Weekday) : Option LocalDate := do
  let index ← isoWeekdayIndex date
  addDays date (-((index - weekdayIndex wkst + 7) % 7))

def addMonths (year month months : Int) : Int × Int :=
  let index := year * 12 + (month - 1) + months
  (index / 12, index % 12 + 1)

/- `k * INTERVAL`. A product that is not exact lies beyond all dates. -/
def stepOf (interval : JsNumber) (k : Nat) : Option Int :=
  match interval with
  | .finite n => if k * n ≤ 2 ^ 53 then some (k * n) else none
  | .infinity => none

def dailyCandidates (rule : RecurrenceRule) (start : LocalDate) (step : Option Int) : List (Option LocalDate) :=
  [step.bind (addDays start)].filter (fun date =>
    matchesByMonth date rule.byMonth && matchesByMonthDay date rule.byMonthDay && matchesByDay date rule.byDay)

def weeklyCandidates (rule : RecurrenceRule) (start : LocalDate) (step : Option Int) : List (Option LocalDate) :=
  let weekStart := do
    let first ← startOfWeek start rule.wkst
    let step ← step
    addDays first (step * 7)
  let week := (List.range 7).map (fun i : Nat => weekStart.bind (fun date => addDays date i))
  let days := if rule.byDay ≠ [] then rule.byDay.map ByDay.weekday else [weekdayOf start]
  week.filter (fun date => weekdayOf date ∈ days && matchesByMonth date rule.byMonth)

def onMonthDays (rule : RecurrenceRule) (year month : Int) : List LocalDate :=
  (rule.byMonthDay.filterMap (resolveMonthDay year month)).filter (fun date => matchesByDay date rule.byDay)

def onStartDay (start : LocalDate) (year month : Int) : Option LocalDate :=
  (resolveMonthDay year month start.day).filter (fun date => date.day = start.day)

def monthlyCandidates (rule : RecurrenceRule) (start : LocalDate) (step : Option Int) : List LocalDate :=
  match step with
  | none => []
  | some step =>
    let (year, month) := addMonths start.year start.month step
    if !matchesByMonth (some ⟨year,month,1⟩) rule.byMonth then []
    else if rule.byMonthDay ≠ [] then onMonthDays rule year month
    else if rule.byDay ≠ [] then expandByDay (monthDates year month) rule.byDay
    else (onStartDay start year month).toList

def yearlyCandidates (rule : RecurrenceRule) (start : LocalDate) (step : Option Int) : List LocalDate :=
  match step with
  | none => []
  | some step =>
    let year := start.year + step
    if rule.byMonthDay ≠ [] then
      let months := if rule.byMonth ≠ [] then rule.byMonth else (List.range 12).map (fun i : Nat => (i : Int) + 1)
      months.flatMap (onMonthDays rule year)
    else if rule.byDay ≠ [] then
      if rule.byMonth ≠ [] then rule.byMonth.flatMap (fun month => expandByDay (monthDates year month) rule.byDay)
      else expandByDay (yearDates year) rule.byDay
    else
      let months := if rule.byMonth ≠ [] then rule.byMonth else [start.month]
      months.filterMap (onStartDay start year)

def periodDates (rule : RecurrenceRule) (start : LocalDate) (k : Nat) : List (Option LocalDate) :=
  let step := stepOf rule.interval k
  match rule.freq with
  | .daily => dailyCandidates rule start step
  | .weekly => weeklyCandidates rule start step
  | .monthly => (monthlyCandidates rule start step).map some
  | .yearly => (yearlyCandidates rule start step).map some

/- What `set` does to the entries of a `Map`: a key keeps its place. -/
def setEntry {κ α : Type} [DecidableEq κ] (key : κ) (value : α) : List (κ × α) → List (κ × α)
  | [] => [(key, value)]
  | entry :: rest => if entry.1 = key then (key, value) :: rest else entry :: setEntry key value rest

def byEpochDay (dates : List (Option LocalDate)) : List (Option Int × Option LocalDate) :=
  dates.foldl (fun entries date => setEntry (date.bind toEpochDay) date entries) []

/- A difference with NaN counts as 0: an entry without a date stays last, where it is found. -/
def notAfter (a b : Option Int × Option LocalDate) : Prop :=
  match a.1, b.1 with
  | some left, some right => left ≤ right
  | _, none => True
  | none, some _ => False

instance : DecidableRel notAfter := fun a b =>
  match ha : a.1, hb : b.1 with
  | some left, some right => decidable_of_iff (left ≤ right) (by simp [notAfter,ha,hb])
  | _, none => .isTrue (by simp [notAfter,hb])
  | none, some _ => .isFalse (by simp [notAfter,ha,hb])

def candidatesForPeriod (rule : RecurrenceRule) (start : LocalDate) (k : Nat) : List (Option LocalDate) :=
  ((byEpochDay (periodDates rule start k)).insertionSort notAfter).map Prod.snd

/- Rounded down; by an infinite `INTERVAL` to 0. -/
def wholePeriods (n unit : Int) : JsNumber → Int
  | .finite interval => n / (unit * interval)
  | .infinity => 0

def periodsBetween (rule : RecurrenceRule) (start date : LocalDate) : Option Int :=
  match rule.freq with
  | .daily => do
    let days ← compareLocalDates date start
    some (wholePeriods days 1 rule.interval)
  | .weekly => do
    let week ← startOfWeek date rule.wkst
    let first ← startOfWeek start rule.wkst
    let days ← compareLocalDates week first
    some (wholePeriods days 7 rule.interval)
  | .monthly => some (wholePeriods (date.year * 12 + date.month - (start.year * 12 + start.month)) 1 rule.interval)
  | .yearly => some (wholePeriods (date.year - start.year) 1 rule.interval)

def periodStart (rule : RecurrenceRule) (start : LocalDate) (k : Nat) : Option LocalDate := do
  let step ← stepOf rule.interval k
  match rule.freq with
  | .daily => addDays start step
  | .weekly => do
    let first ← startOfWeek start rule.wkst
    addDays first (step * 7)
  | .monthly =>
    let (year, month) := addMonths start.year start.month step
    some ⟨year,month,1⟩
  | .yearly => some ⟨start.year + step,1,1⟩

def beyondUntil (rule : RecurrenceRule) (reading : LocalDateTime) (instant : Instant) : Bool :=
  match rule.until with
  | none => false
  | some (.date date) => (compareLocalDates reading.toDate date).any (0 < ·)
  | some (.utc last) => last < instant
  | some (.reading last) => (compareLocalDateTimes reading last).any (0 < ·)

def beyondCount (rule : RecurrenceRule) (produced : Nat) : Bool :=
  match rule.count with
  | some (.finite count) => count < produced
  | some .infinity | none => false

structure Window where
  start : Instant
  stop : Instant
  deriving DecidableEq, Repr

structure ExpandInput where
  rule : RecurrenceRule
  dtstart : LocalDateTime
  zone : Zone
  window : Window
  limit : Nat

structure ExpandedOccurrence where
  reading : LocalDateTime
  instant : Instant
  deriving DecidableEq, Repr

structure Expansion where
  occurrences : List ExpandedOccurrence
  exhausted : Bool
  deriving DecidableEq, Repr

structure Progress where
  occurrences : List ExpandedOccurrence
  produced : Nat
  deriving DecidableEq, Repr

inductive Pass where
  | next (progress : Progress)
  | returned (result : Result Expansion)
  deriving DecidableEq

def visit (input : ExpandInput) (progress : Progress) (date : Option LocalDate) : Option Pass := do
  let date ← date
  let reading := atTime date input.dtstart.hour input.dtstart.minute input.dtstart.second
  if (compareLocalDateTimes reading input.dtstart).any (· < 0) then some (.next progress)
  else do
    let instant ← localToInstant input.zone reading
    let produced := progress.produced + 1
    let occurrences := progress.occurrences ++ [⟨reading,instant⟩]
    if beyondUntil input.rule reading instant then some (.returned (.ok ⟨progress.occurrences,true⟩))
    else if beyondCount input.rule produced then some (.returned (.ok ⟨progress.occurrences,true⟩))
    else if input.window.stop ≤ instant then some (.returned (.ok ⟨progress.occurrences,false⟩))
    else if instant < input.window.start then some (.next ⟨progress.occurrences,produced⟩)
    else if input.limit < occurrences.length then some (.returned (.error (.recurrenceTooDense input.limit)))
    else some (.next ⟨occurrences,produced⟩)

def visitAll (input : ExpandInput) (progress : Progress) : List (Option LocalDate) → Option Pass
  | [] => some (.next progress)
  | date :: rest => do
    match ← visit input progress date with
    | .next later => visitAll input later rest
    | .returned result => some (.returned result)

def pastWindow (input : ExpandInput) (windowEnd : LocalDate) (k : Nat) : Bool :=
  (do
    let first ← periodStart input.rule input.dtstart.toDate k
    let last ← addDays windowEnd 1
    compareLocalDates first last).any (0 < ·)

def walk (input : ExpandInput) (windowEnd : LocalDate) : (fuel k : Nat) → Progress → Option Pass
  | 0, _, progress => some (.next progress)
  | fuel + 1, k, progress =>
    if pastWindow input windowEnd k then some (.returned (.ok ⟨progress.occurrences,false⟩))
    else do
      match ← visitAll input progress (candidatesForPeriod input.rule input.dtstart.toDate k) with
      | .next later => walk input windowEnd fuel (k + 1) later
      | .returned result => some (.returned result)

/- Without a first date two days before the window it is NaN, and the loop does not start. -/
def firstPeriod (input : ExpandInput) : Option (Option Nat) :=
  if input.rule.count.isSome then some (some 0)
  else do
    let windowStart ← instantToLocal input.zone input.window.start
    some (do
      let date ← addDays windowStart.toDate (-2)
      let between ← periodsBetween input.rule input.dtstart.toDate date
      some (max 0 (between - 1)).toNat)

def periods (input : ExpandInput) : Option Pass := do
  let windowEnd ← instantToLocal input.zone input.window.stop
  match ← firstPeriod input with
  | some first => walk input windowEnd.toDate maxPeriods first ⟨[],0⟩
  | none => some (.next ⟨[],0⟩)

def expand (input : ExpandInput) : Option (Result Expansion) := do
  match ← periods input with
  | .returned result => some result
  | .next progress => some (.ok ⟨progress.occurrences,false⟩)

def maxSteps : Nat := 64
def maxSpanDays : Nat := 3660

structure NextOccurrenceInput where
  rule : RecurrenceRule
  dtstart : LocalDateTime
  zone : Zone
  after : Instant

def initialSpanDays (rule : RecurrenceRule) : Nat :=
  let perPeriod := match rule.freq with
    | .daily => 2
    | .weekly => 8
    | .monthly => 32
    | .yearly => 367
  match rule.interval with
  | .finite n => min (perPeriod * n) maxSpanDays
  | .infinity => maxSpanDays

def stepWindows (input : NextOccurrenceInput) :
    (steps : Nat) → Instant → Nat → Option (Result (Option ExpandedOccurrence))
  | 0, _, _ => some (.ok none)
  | steps + 1, start, spanDays => do
    let stop := start + spanDays * msPerDay
    match ← expand ⟨input.rule,input.dtstart,input.zone,⟨start,stop⟩,maxOccurrences⟩ with
    | .error e => some (.error e)
    | .ok expansion => match expansion.occurrences with
      | first :: _ => some (.ok (some first))
      | [] =>
        if expansion.exhausted then some (.ok none)
        else stepWindows input steps stop (min (spanDays * 2) maxSpanDays)

def nextOccurrenceAfter (input : NextOccurrenceInput) : Option (Result (Option ExpandedOccurrence)) :=
  stepWindows input maxSteps (input.after + 1) (initialSpanDays input.rule)

end FamilyPlatform.Recurrence
