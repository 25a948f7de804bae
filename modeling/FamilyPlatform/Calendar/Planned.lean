import FamilyPlatform.Kernel.Density
import FamilyPlatform.Calendar.Scheduled

/-! What a plan of a series holds: never too much for a horizon, and the start of the event
itself where its reading resolves to it. -/
namespace FamilyPlatform.Calendar
open ZonedTime Civil Recurrence Offsets

def EventTiming.Real : EventTiming → Prop
  | .timed _ _ => True
  | .allDay startDate _ => startDate.Real

instance (timing) : Decidable (EventTiming.Real timing) := by
  cases timing <;> unfold EventTiming.Real <;> infer_instance

def StartsFrom (intl : Intl) (event : CalendarEvent) (rule : RecurrenceRule) (dtstart : LocalDateTime) : Prop :=
  event.recurrenceRule = some rule ∧ ∃ zone, intl event.timeZone = some zone ∧ dtstartOf zone event.timing = some dtstart

section
variable {intl : Intl} {event : CalendarEvent} {zone : Zone} {rule : RecurrenceRule} {dtstart : LocalDateTime}
  {timing : EventTiming} {window : Window}

theorem startReal (real : timing.Real) (read : dtstartOf zone timing = some dtstart) :
    dtstart.toDate.Real ∧ LocalDateTime.Clock dtstart := by
  cases timing with
  | timed startsAt endsAt => exact instantToLocalReal read
  | allDay startDate endDate =>
    cases read
    exact ⟨real,by simp [LocalDateTime.Clock,atTime]⟩

theorem seriesNotDense (real : timing.Real) (short : window.stop - window.start ≤ 800 * msPerDay) {error : DomainError} :
    planSeries zone rule timing window ≠ some (.error error) := by
  intro refused
  simp only [planSeries,bind,Option.bind_eq_some_iff] at refused
  obtain ⟨dtstart,read,result,expanded,ends⟩ := refused
  obtain ⟨start,clock⟩ := startReal real read
  cases result with
  | error e => exact @expandNotDense (expansionOf rule dtstart zone window) start clock short rfl e expanded
  | ok expansion =>
    obtain ⟨_,-,is⟩ := Option.bind_eq_some_iff.mp ends
    cases is

theorem planNotDense (real : event.timing.Real) (short : window.stop - window.start ≤ 800 * msPerDay)
    {error : DomainError} : planOccurrences intl event window ≠ some (.error error) := by
  intro refused
  unfold planOccurrences at refused
  split at refused
  · obtain ⟨_,-,is⟩ := Option.map_eq_some_iff.mp refused
    cases is
  · obtain ⟨zone,-,series⟩ := Option.bind_eq_some_iff.mp refused
    exact seriesNotDense real short series

/- No horizon is refused, as distinct periods come to disjoint dates, later ones to later dates. -/
def Sparse (intl : Intl) (event : CalendarEvent) : Prop :=
  (∀ now error, planOccurrences intl event (materialisationWindow now) ≠ some (.error error)) ∧
    ∀ rule dtstart, StartsFrom intl event rule dtstart → PeriodsIncrease rule dtstart.toDate

/-- The horizon of an event is never refused as too dense; and for this reason, unless its rule comes to the same date
in both weeks around the leap day of the year 0. -/
theorem horizonsSparse (real : event.timing.Real) :
    (∀ now error, planOccurrences intl event (materialisationWindow now) ≠ some (.error error)) ∧
    (Sparse intl event ↔ ∀ rule dtstart, StartsFrom intl event rule dtstart → ¬ WeekTwice rule dtstart.toDate) := by
  have never : ∀ now error, planOccurrences intl event (materialisationWindow now) ≠ some (.error error) :=
    fun now error => planNotDense real (horizonWidth now)
  refine ⟨never,(and_iff_right never).trans ?_⟩
  refine forall_congr' (fun rule => forall_congr' (fun dtstart => ?_))
  exact imp_congr_right (fun ⟨_,zone,_,read⟩ => periodsIncrease (startReal real read).1)

end

def tuesdays : RecurrenceRule where
  freq := .weekly
  interval := .finite 1
  count := none
  «until» := none
  byDay := [⟨.tu,none⟩]
  byMonthDay := []
  byMonth := []
  wkst := .tu
  parsed := by constructor <;> simp [JsNumber.atLeastOne]

def marketDay (date : LocalDate) : CalendarEvent where
  id := 0
  title := "Market day"
  description := none
  location := none
  category := none
  timing := .allDay date date
  timeZone := "UTC"
  recurrenceRule := some tuesdays
  attachmentRefs := []
  status := .confirmed
  participants := []
  materialisedThrough := none
  createdByMemberId := some 1
  createdAt := 1767225600000
  updatedAt := 1767225600000

def utcEverywhere : Intl := fun _ => some Zone.utc

theorem marketsSparse : Sparse utcEverywhere (marketDay ⟨2026,3,3⟩) := by
  refine (@horizonsSparse utcEverywhere (marketDay ⟨2026,3,3⟩) (by decide)).2.mpr ?_
  rintro rule dtstart ⟨⟨⟩,zone,⟨⟩,⟨⟩⟩ ⟨-,-,⟨first,starts,before,-⟩,-⟩
  have tuesday : firstWeek tuesdays ⟨2026,3,3⟩ = some 20515 := by decide
  cases tuesday.symm.trans starts
  exact absurd before (by decide)

/- The 7th of March of the year 0, twice. -/
theorem marketTwice : ¬ ∀ (intl : Intl) (event : CalendarEvent), event.timing.Real → Sparse intl event := by
  intro all
  have increase := (all utcEverywhere (marketDay ⟨0,2,22⟩) (by decide)).2 tuesdays ⟨⟨0,2,22⟩,0,0,0⟩
    ⟨rfl,_,rfl,rfl⟩ 1 2 ⟨0,3,7⟩ ⟨0,3,7⟩ (by decide) (by decide) (by decide)
  exact absurd increase (lt_irrefl _)

theorem resolveReads {zone : Zone} (reading : Int) :
    reading ≤ resolve zone.offsetAt 86400 reading + zone.offsetAt (resolve zone.offsetAt 86400 reading) ∧
      resolve zone.offsetAt 86400 reading + zone.offsetAt (resolve zone.offsetAt 86400 reading) < reading + 86400 := by
  by_cases read : ∃ s, s + zone.offsetAt s = reading
  · obtain ⟨s,reads⟩ := read
    rw [(zone.steady.apart.resolveLeast reads).1]
    omega
  · obtain ⟨change,skips⟩ := zone.steady.apart.unreadSkipped (fun s reads => read ⟨s,reads⟩)
    have small := zone.steady.small (change - 1)
    rw [Int.sub_add_cancel] at small
    rw [(zone.steady.apart.resolveSkipped skips).2]
    have wider := skips.1
    omega

def ProducesStart (rule : RecurrenceRule) (dtstart : LocalDateTime) (zone : Zone) : Prop :=
  ∃ instant, Produces rule dtstart zone ⟨dtstart,instant⟩

section
variable {zone : Zone} {rule : RecurrenceRule} {dtstart : LocalDateTime} {startsAt endsAt : Instant}
  (s : StartDay dtstart.toDate) (clock : LocalDateTime.Clock dtstart)
include s clock

theorem startScheduled {instant : Instant} (produced : Produces rule dtstart zone ⟨dtstart,instant⟩) :
    Scheduled rule dtstart zone ⟨dtstart,instant⟩ ∧ localToInstant zone dtstart = some instant := by
  obtain ⟨k,occurs⟩ := @producesOccurs (expansionOf rule dtstart zone ⟨0,0⟩) ⟨dtstart,instant⟩ produced
  have inK := @memOccurrencesIn (expansionOf rule dtstart zone ⟨0,0⟩) s clock k _ occurs
  refine ⟨⟨produced,fun _ => ⟨k,?_,@occursCandidate (expansionOf rule dtstart zone ⟨0,0⟩) s clock k _ occurs⟩⟩,inK.resolved⟩
  obtain ⟨interval,finite,period⟩ := inK.inPeriod.period
  have own : periodIndex rule dtstart.toDate dtstart.toDate = 0 := by
    unfold periodIndex
    split <;> omega
  have none_ : (k : Int) * interval = 0 := period.symm.trans own
  have positive := intervalPositive finite
  have first : k = 0 := by
    rcases Int.mul_eq_zero.mp none_ with zero | zero <;> omega
  rw [first]
  decide

theorem recursAtStart {x : ExpandedOccurrence} (read : instantToLocal zone startsAt = some dtstart)
    (scheduled : Scheduled rule dtstart zone x) (here : x.instant = startsAt) :
    localToInstant zone dtstart = some startsAt := by
  obtain ⟨k,occurs⟩ := @producesOccurs (expansionOf rule dtstart zone ⟨0,0⟩) x scheduled.produced
  have inK := @memOccurrencesIn (expansionOf rule dtstart zone ⟨0,0⟩) s clock k x occurs
  have since : dtstart.toDate.number ≤ x.reading.toDate.number := inK.since
  have sameClock : clockMs x.reading = clockMs dtstart := inK.clock
  have resolved : localToInstant zone x.reading = some x.instant := inK.resolved
  have is := localToInstantSource inK.inPeriod.real inK.clocked inK.inPeriod.low resolved
  have reads := @resolveReads zone (secondOf x.reading)
  have second : startsAt / 1000 = resolve zone.offsetAt 86400 (secondOf x.reading) := by
    rw [← here,is]
    exact Int.mul_ediv_cancel _ (by decide)
  have start : secondOf dtstart = startsAt / 1000 + zone.offsetAt (startsAt / 1000) := by
    rw [instantToLocalSource read,secondOfReading]
  rw [second] at start
  have first := secondMs dtstart
  have later := secondMs x.reading
  have same : x.reading = dtstart := by
    refine secondInjective inK.inPeriod.real inK.clocked s.real clock ?_
    unfold msPerDay at *
    omega
  rw [← same,resolved,here]

omit s clock in
theorem mapMTotal {α β : Type} {f : α → Option β} {g : α → β} (all : ∀ x, f x = some (g x)) (xs : List α) :
    xs.mapM f = some (xs.map g) := by
  induction xs with
  | nil => rfl
  | cons x rest ih => simp [List.mapM_cons,all,ih]

variable {window : Window} (short : window.stop - window.start ≤ 800 * msPerDay)
include short

theorem seriesReturns (start : RealInstant window.start) (stop : RealInstant window.stop)
    (read : dtstartOf zone (.timed startsAt endsAt) = some dtstart) :
    (∃ plan, planSeries zone rule (.timed startsAt endsAt) window = some (.ok plan)) ↔
      ¬ RunsOver (expansionOf rule dtstart zone window) := by
  rw [← @expandThrows (expansionOf rule dtstart zone window) start stop]
  simp only [planSeries,read,bind,Option.bind_some]
  cases expanded : expand (expansionOf rule dtstart zone window) with
  | none => simp
  | some result =>
    cases result with
    | error e => exact absurd expanded (@expandNotDense (expansionOf rule dtstart zone window) s.real clock short rfl e)
    | ok expansion =>
      have all := mapMTotal (f := planOccurrence zone (.timed startsAt endsAt))
        (g := fun x => ⟨x.instant,timeClip (x.instant + (endsAt - startsAt))⟩) (fun _ => rfl) expansion.occurrences
      simp [all]

end

/- A timed series that produces its own start, and a window that has it. -/
structure StartInside (intl : Intl) (event : CalendarEvent) (startsAt endsAt : Instant) (zone : Zone)
    (rule : RecurrenceRule) (dtstart : LocalDateTime) (window : Window) : Prop where
  timed : event.timing = .timed startsAt endsAt
  named : intl event.timeZone = some zone
  recurring : event.recurrenceRule = some rule
  read : instantToLocal zone startsAt = some dtstart
  dated : StartDay dtstart.toDate
  produces : ProducesStart rule dtstart zone
  ends : RealInstant endsAt
  real : RealInstant window.start ∧ RealInstant window.stop
  inside : window.start ≤ startsAt ∧ startsAt < window.stop
  short : window.stop - window.start ≤ 800 * msPerDay

def PlansStart (intl : Intl) (event : CalendarEvent) (startsAt endsAt : Instant) (window : Window) : Prop :=
  ∃ plan, planOccurrences intl event window = some (.ok plan) ∧ ⟨startsAt,some endsAt⟩ ∈ plan.planned

section
variable {intl : Intl} {event : CalendarEvent} {zone : Zone} {rule : RecurrenceRule} {dtstart : LocalDateTime}
  {startsAt endsAt : Instant} {window : Window}

/-- A plan has the event at its own start and end if and only if the start is what its reading resolves to, and the
expansion does not come to a date out of the range of `Date`. -/
theorem startPlanned (series : StartInside intl event startsAt endsAt zone rule dtstart window) :
    PlansStart intl event startsAt endsAt window ↔
      localToInstant zone dtstart = some startsAt ∧ ¬ RunsOver (expansionOf rule dtstart zone window) := by
  have clock := (instantToLocalReal series.read).2
  have read : dtstartOf zone (.timed startsAt endsAt) = some dtstart := series.read
  have wide : window.stop - window.start ≤ 4000 * msPerDay := le_trans series.short (by decide)
  have is : planOccurrences intl event window = planSeries zone rule (.timed startsAt endsAt) window := by
    simp only [planOccurrences,series.recurring,series.named,series.timed,bind,Option.bind_some]
  rw [PlansStart,is,← seriesReturns series.dated clock series.short series.real.1 series.real.2 read]
  constructor
  · rintro ⟨plan,planned,mem⟩
    have plans := seriesPlans read series.dated clock wide planned
    obtain ⟨x,scheduled,from_⟩ := plans.produced _ mem
    exact ⟨recursAtStart series.dated clock series.read scheduled (plannedStart from_).symm,plan,planned⟩
  · rintro ⟨resolves,plan,planned⟩
    have plans := seriesPlans read series.dated clock wide planned
    obtain ⟨instant,produced⟩ := series.produces
    obtain ⟨scheduled,resolved⟩ := startScheduled series.dated clock produced
    cases resolves.symm.trans resolved
    obtain ⟨p,mem,from_⟩ := plans.complete _ scheduled series.inside.1 series.inside.2
    have clip : timeClip (startsAt + (endsAt - startsAt)) = some endsAt := by
      rw [show (startsAt + (endsAt - startsAt) : Int) = endsAt by ring]
      exact timeClipSome series.ends.1 series.ends.2
    simp only [planOccurrence,clip,Option.some.injEq] at from_
    exact ⟨plan,planned,from_ ▸ mem⟩

end

def lesson (startsAt endsAt : Instant) : CalendarEvent :=
  { marketDay ⟨1970,1,6⟩ with title := "Swimming", timing := .timed startsAt endsAt }

theorem lessonInside {startsAt : Instant} (second : startsAt = 464400000 ∨ startsAt = 464400500) :
    StartInside utcEverywhere (lesson startsAt 468000000) startsAt 468000000 .utc tuesdays ⟨⟨1970,1,6⟩,9,0,0⟩
      ⟨0,604800000⟩ where
  timed := rfl
  named := rfl
  recurring := rfl
  read := by rcases second with rfl | rfl <;> decide
  dated := ⟨by decide,by decide,by decide⟩
  produces := ⟨464400000,⟨0,604800000⟩,1,by decide +kernel⟩
  ends := by decide
  real := by decide
  inside := by rcases second with rfl | rfl <;> decide
  short := by decide

theorem lessonPlanned : PlansStart utcEverywhere (lesson 464400000 468000000) 464400000 468000000 ⟨0,604800000⟩ := by
  refine (startPlanned (lessonInside (.inl rfl))).mpr ⟨by decide,fun runs => ?_⟩
  have none_ := (@expandThrows (expansionOf tuesdays ⟨⟨1970,1,6⟩,9,0,0⟩ .utc ⟨0,604800000⟩) (by decide) (by decide)).mpr runs
  have some_ : (expand (expansionOf tuesdays ⟨⟨1970,1,6⟩,9,0,0⟩ .utc ⟨0,604800000⟩)).isSome := by decide +kernel
  rw [none_] at some_
  cases some_

/- Half a second after nine, and planned for nine. -/
theorem lessonMoved : ¬ ∀ intl event startsAt endsAt zone rule dtstart window,
    StartInside intl event startsAt endsAt zone rule dtstart window → PlansStart intl event startsAt endsAt window := by
  intro all
  obtain ⟨plan,planned,mem⟩ := all _ _ _ _ _ _ _ _ (lessonInside (.inr rfl))
  have only : planOccurrences utcEverywhere (lesson 464400500 468000000) ⟨0,604800000⟩ =
      some (.ok ⟨[⟨464400000,some 467999500⟩],some 604800000,some 0⟩) := by decide +kernel
  cases planned.symm.trans only
  simp at mem

end FamilyPlatform.Calendar
