import FamilyPlatform.Kernel.Answers
import FamilyPlatform.Tasks.Shapes

/-! A head that is closed early, on the date that it was created for: whether the series is
handed on to the next date of the rule. -/
namespace FamilyPlatform.Tasks
open ZonedTime Civil Recurrence RecurrenceRule

structure ClosedEarly (intl : Intl) (head : Task) (rule : RecurrenceRule) (anchor : LocalDateTime) (zone : Zone)
    (due : Due) (x : ExpandedOccurrence) (dueAt now : Instant) : Prop where
  stored : Stored head
  flagged : head.isSeriesHead = true
  ruled : head.recurrenceRule = some rule
  anchored : head.recurrenceAnchor = some anchor
  dated : head.due = some due
  named : intl due.timeZone = some zone
  scheduled : Produces rule anchor zone x
  reading : dueLocalDateTime due = x.reading
  moment : head.dueAt intl = some (some dueAt)
  early : now ≤ dueAt

structure NextDate (rule : RecurrenceRule) (anchor : LocalDateTime) (zone : Zone) (x y : ExpandedOccurrence) : Prop where
  produced : Produces rule anchor zone y
  later : x.reading.toDate.number < y.reading.toDate.number
  least : ∀ z, Produces rule anchor zone z → x.reading.toDate.number < z.reading.toDate.number →
    y.reading.toDate.number ≤ z.reading.toDate.number

def LastDate (rule : RecurrenceRule) (anchor : LocalDateTime) (zone : Zone) (x : ExpandedOccurrence) : Prop :=
  ∀ z, Produces rule anchor zone z → z.reading.toDate.number ≤ x.reading.toDate.number

def Advances (intl : Intl) (head : Task) (rule : RecurrenceRule) (anchor : LocalDateTime) (zone : Zone) (due : Due)
    (x : ExpandedOccurrence) (now : Instant) : Prop :=
  (∃ y, NextDate rule anchor zone x y ∧ successorDueOf intl head now = some (.ok (some (dueAtReading due y.reading)))) ∨
    (LastDate rule anchor zone x ∧ successorDueOf intl head now = some (.ok none))

/- A due without a time ends where the next day begins: no date of the rule may begin there. -/
def Spaced (rule : RecurrenceRule) (anchor : LocalDateTime) (zone : Zone) (due : Due) (x : ExpandedOccurrence) : Prop :=
  ∀ date timeZone, due = .date date timeZone → ∀ z, Produces rule anchor zone z →
    z.reading.toDate.number ≠ x.reading.toDate.number + 1

/- The next date is in a period that is visited, and the window of the search that has it is not crowded, in the range
of `Date` and not run over; or where the rule has ended, the search comes to the end. -/
def Searchable (rule : RecurrenceRule) (anchor : LocalDateTime) (zone : Zone) (x : ExpandedOccurrence) (dueAt : Instant) :
    Prop :=
  let input : NextOccurrenceInput := ⟨rule,anchor,zone,dueAt⟩
  (∀ y, NextDate rule anchor zone x y → Visited input y ∧ ∃ window ∈ input.windows, Finds input y window) ∧
  (LastDate rule anchor zone x → Finishes input input.windows)

section
variable {intl : Intl} {head : Task} {rule : RecurrenceRule} {anchor : LocalDateTime} {zone : Zone} {due : Due}
  {x y z : ExpandedOccurrence} {dueAt now : Instant}

theorem instantOrder (based : Based anchor) (first : Produces rule anchor zone y) (second : Produces rule anchor zone z)
    (less : y.reading.toDate.number < z.reading.toDate.number) : y.instant < z.instant := by
  obtain ⟨k,occurs⟩ := @producesOccurs ⟨rule,anchor,zone,⟨0,0⟩,maxOccurrences⟩ _ first
  obtain ⟨k',occurs'⟩ := @producesOccurs ⟨rule,anchor,zone,⟨0,0⟩,maxOccurrences⟩ _ second
  exact (laterInstant (memOccurrencesIn based.day based.clock occurs) (memOccurrencesIn based.day based.clock occurs')
    less).2

theorem sameOccurrence (based : Based anchor) (first : Produces rule anchor zone y) (second : Produces rule anchor zone z)
    (same : y.reading.toDate.number = z.reading.toDate.number) : y = z := by
  obtain ⟨k,occurs⟩ := @producesOccurs ⟨rule,anchor,zone,⟨0,0⟩,maxOccurrences⟩ _ first
  obtain ⟨k',occurs'⟩ := @producesOccurs ⟨rule,anchor,zone,⟨0,0⟩,maxOccurrences⟩ _ second
  have inK := memOccurrencesIn based.day based.clock occurs
  have inK' := memOccurrencesIn based.day based.clock occurs'
  have reading : y.reading = z.reading := by
    refine secondInjective inK.inPeriod.real inK.clocked inK'.inPeriod.real inK'.clocked ?_
    have clocks := inK.clock.trans inK'.clock.symm
    simp only [secondOf,clockMs] at clocks ⊢
    omega
  have resolved := inK.resolved
  rw [reading] at resolved
  obtain ⟨r,i⟩ := y
  obtain ⟨r',i'⟩ := z
  simp only [ExpandedOccurrence.mk.injEq]
  exact ⟨reading,Option.some.inj (resolved.symm.trans inK'.resolved)⟩

theorem occurs (based : Based anchor) (produced : Produces rule anchor zone z) :
    ∃ k, OccursIn ⟨rule,anchor,zone,⟨0,0⟩,maxOccurrences⟩ k z := by
  obtain ⟨k,there⟩ := @producesOccurs ⟨rule,anchor,zone,⟨0,0⟩,maxOccurrences⟩ _ produced
  exact ⟨k,memOccurrencesIn based.day based.clock there⟩

theorem dueMoment (closed : ClosedEarly intl head rule anchor zone due x dueAt now) :
    ((∀ date timeZone, due ≠ .date date timeZone) ∧ dueAt = x.instant) ∨
      clockMs x.reading = 0 ∧ localToInstant zone (atTime (dateOf (x.reading.toDate.number + 1)) 0 0 0) = some dueAt := by
  have based := closed.stored.anchor anchor closed.anchored
  obtain ⟨k,inK⟩ := occurs based closed.scheduled
  have moment := closed.moment
  have reading := closed.reading
  simp only [Task.dueAt,closed.dated,Option.map_eq_some_iff,Option.some.injEq,exists_eq_right] at moment
  simp only [dueMomentOf,bind,closed.named,Option.bind_some] at moment
  cases due with
  | dateTime date time timeZone =>
    simp only at moment
    rw [show atTime date time.hour time.minute 0 = x.reading from reading,inK.resolved] at moment
    exact .inl ⟨fun _ _ same => (by cases same),(Option.some.inj moment).symm⟩
  | date date timeZone =>
    obtain ⟨next,added,starts⟩ := Option.bind_eq_some_iff.mp moment
    have day : date = x.reading.toDate := congrArg (fun l : LocalDateTime => l.toDate) reading
    subst day
    have low := inK.inPeriod.low
    obtain ⟨rfl,-⟩ := addDaysSource inK.inPeriod.real (by unfold earliest; omega) added
    refine .inr ⟨?_,starts⟩
    rw [← reading]
    rfl

theorem midnightClock (d : LocalDate) : LocalDateTime.Clock (atTime d 0 0 0) := by simp [LocalDateTime.Clock,atTime]

theorem dueNotBefore (closed : ClosedEarly intl head rule anchor zone due x dueAt now)
    (produced : Produces rule anchor zone z) (le : z.reading.toDate.number ≤ x.reading.toDate.number) :
    z.instant ≤ dueAt := by
  have based := closed.stored.anchor anchor closed.anchored
  obtain ⟨k,inK⟩ := occurs based produced
  obtain ⟨k',inK'⟩ := occurs based closed.scheduled
  rcases dueMoment closed with ⟨-,rfl⟩ | ⟨midnight,starts⟩
  · rcases Int.lt_or_eq_of_le le with less | same
    · exact le_of_lt (instantOrder based produced closed.scheduled less)
    · rw [sameOccurrence based produced closed.scheduled same]
  · refine le_of_lt (instantsIncrease inK.inPeriod.real (dateOfReal _) inK.clocked (midnightClock _) inK.inPeriod.low ?_ ?_
      inK.resolved starts)
    · simp only [atTime,numberOfDate]
      omega
    · rw [inK.clock,← inK'.clock,midnight]
      rfl

theorem dueInRange (closed : ClosedEarly intl head rule anchor zone due x dueAt now) :
    -(latest * ZonedTime.msPerDay) ≤ dueAt := by
  have based := closed.stored.anchor anchor closed.anchored
  obtain ⟨k,inK⟩ := occurs based closed.scheduled
  have low := inK.inPeriod.low
  have bounds := clockBounds inK.clocked
  have resolved : x.instant = Offsets.resolve zone.offsetAt 86400 (secondOf x.reading) * 1000 :=
    localToInstantSource inK.inPeriod.real inK.clocked low inK.resolved
  have near := zone.steady.apart.resolveBounds (secondOf x.reading)
  have day := secondDay inK.clocked
  refine le_trans ?_ (dueNotBefore closed closed.scheduled le_rfl)
  rw [resolved]
  unfold latest ZonedTime.msPerDay
  omega

theorem dueAtNext (closed : ClosedEarly intl head rule anchor zone due x dueAt now)
    (produced : Produces rule anchor zone z) {date : LocalDate} {timeZone : String} (alone : due = .date date timeZone)
    (next : z.reading.toDate.number = x.reading.toDate.number + 1) : z.instant = dueAt := by
  have based := closed.stored.anchor anchor closed.anchored
  obtain ⟨k,inK⟩ := occurs based produced
  obtain ⟨k',inK'⟩ := occurs based closed.scheduled
  rcases dueMoment closed with ⟨timed,-⟩ | ⟨midnight,starts⟩
  · exact absurd alone (timed date timeZone)
  · have reading : z.reading = atTime (dateOf (x.reading.toDate.number + 1)) 0 0 0 := by
      refine secondInjective inK.inPeriod.real inK.clocked (dateOfReal _) (midnightClock _) ?_
      have clock := inK.clock.trans inK'.clock.symm
      rw [midnight] at clock
      simp only [secondOf,clockMs,atTime,numberOfDate] at clock ⊢
      omega
    have resolved := inK.resolved
    rw [reading,starts] at resolved
    exact (Option.some.inj resolved).symm

theorem dueBefore (closed : ClosedEarly intl head rule anchor zone due x dueAt now) (spaced : Spaced rule anchor zone due x)
    (produced : Produces rule anchor zone z) (less : x.reading.toDate.number < z.reading.toDate.number) :
    dueAt < z.instant := by
  have based := closed.stored.anchor anchor closed.anchored
  obtain ⟨k,inK⟩ := occurs based produced
  obtain ⟨k',inK'⟩ := occurs based closed.scheduled
  rcases dueMoment closed with ⟨-,rfl⟩ | ⟨midnight,starts⟩
  · exact instantOrder based closed.scheduled produced less
  have low := inK'.inPeriod.low
  by_cases next : z.reading.toDate.number = x.reading.toDate.number + 1
  · cases due with
    | date date timeZone => exact absurd next (spaced date timeZone rfl z produced)
    | dateTime date time timeZone =>
      -- A due at midnight has the moment of its own occurrence.
      have moment := closed.moment
      simp only [Task.dueAt,closed.dated,Option.map_eq_some_iff,Option.some.injEq,exists_eq_right] at moment
      simp only [dueMomentOf,bind,closed.named,Option.bind_some] at moment
      rw [show atTime date time.hour time.minute 0 = x.reading from closed.reading,inK'.resolved] at moment
      exact Option.some.inj moment ▸ instantOrder based closed.scheduled produced less
  · refine instantsIncrease (dateOfReal _) inK.inPeriod.real (midnightClock _) inK.clocked ?_ ?_ ?_ starts inK.resolved
    · simp only [atTime,numberOfDate]
      omega
    · simp only [atTime,numberOfDate]
      omega
    · rw [inK.clock,← inK'.clock,midnight]
      rfl

theorem successorIs (closed : ClosedEarly intl head rule anchor zone due x dueAt now) :
    successorDueOf intl head now = (nextOccurrenceAfter ⟨rule,anchor,zone,dueAt⟩).map (fun next =>
      next.map (fun found => found.map (fun occurrence => dueAtReading due occurrence.reading))) := by
  have last : max dueAt now = dueAt := max_eq_left closed.early
  simp only [successorDueOf,bind,closed.moment,Option.bind_some,closed.flagged,closed.ruled,closed.anchored,closed.dated,
    closed.named,last]
  cases nextOccurrenceAfter ⟨rule,anchor,zone,dueAt⟩ <;> rfl

theorem successorSome (closed : ClosedEarly intl head rule anchor zone due x dueAt now) (next : Produces rule anchor zone y) :
    successorDueOf intl head now = some (.ok (some (dueAtReading due y.reading))) ↔
      nextOccurrenceAfter ⟨rule,anchor,zone,dueAt⟩ = some (.ok (some y)) := by
  have based := closed.stored.anchor anchor closed.anchored
  rw [successorIs closed]
  constructor
  · intro is
    obtain ⟨result,found,is⟩ := Option.map_eq_some_iff.mp is
    cases result with
    | error e => cases is
    | ok found' =>
      cases found' with
      | none => cases is
      | some w =>
        obtain ⟨-,window,listed⟩ := nextListed found
        have date := congrArg Due.localDate (Option.some.inj (Except.ok.inj is))
        have days : ∀ r, (dueAtReading due r).localDate = r.toDate := by
          intro r
          cases due <;> rfl
        rw [days,days] at date
        rw [found,sameOccurrence based (listed.produced rfl based.day based.clock) next (congrArg Date.number date)]
  · intro found
    rw [found]
    rfl

theorem successorNone (closed : ClosedEarly intl head rule anchor zone due x dueAt now) :
    successorDueOf intl head now = some (.ok none) ↔ nextOccurrenceAfter ⟨rule,anchor,zone,dueAt⟩ = some (.ok none) := by
  rw [successorIs closed]
  constructor
  · intro is
    obtain ⟨result,found,is⟩ := Option.map_eq_some_iff.mp is
    cases result with
    | error e => cases is
    | ok found' =>
      cases found' with
      | none => exact found
      | some w => cases is
  · intro found
    rw [found]
    rfl

theorem nextIsFirst (closed : ClosedEarly intl head rule anchor zone due x dueAt now) (spaced : Spaced rule anchor zone due x)
    (next : NextDate rule anchor zone x y) : FirstAfter ⟨rule,anchor,zone,dueAt⟩ y := by
  have based := closed.stored.anchor anchor closed.anchored
  refine ⟨next.produced,dueBefore closed spaced next.produced next.later,fun z produced after => ?_⟩
  by_cases later : x.reading.toDate.number < z.reading.toDate.number
  · rcases Int.lt_or_eq_of_le (next.least z produced later) with less | same
    · exact le_of_lt (instantOrder based next.produced produced less)
    · rw [sameOccurrence based next.produced produced same]
  · exact absurd (lt_of_lt_of_le after (dueNotBefore closed produced (Int.not_lt.mp later))) (lt_irrefl _)

theorem nextOrLast : (∃ y, NextDate rule anchor zone x y) ∨ LastDate rule anchor zone x := by
  classical
  by_cases last : LastDate rule anchor zone x
  · exact .inr last
  simp only [LastDate,not_forall,Int.not_le] at last
  obtain ⟨z,produced,later⟩ := last
  have days : ∃ n : Nat, ∃ y, Produces rule anchor zone y ∧ y.reading.toDate.number = x.reading.toDate.number + 1 + n :=
    ⟨(z.reading.toDate.number - x.reading.toDate.number - 1).toNat,z,produced,by omega⟩
  obtain ⟨y,there,is⟩ := Nat.find_spec days
  refine .inl ⟨y,there,by omega,fun w produced' later' => ?_⟩
  have least : Nat.find days ≤ (w.reading.toDate.number - x.reading.toDate.number - 1).toNat :=
    Nat.find_min' days ⟨w,produced',by omega⟩
  omega

/-- A head that is closed on its scheduled date advances by exactly one date of the rule, or ends with the last, if
and only if no date begins where its due ends, and the search gets so far. -/
theorem advancesOne (closed : ClosedEarly intl head rule anchor zone due x dueAt now) :
    Advances intl head rule anchor zone due x now ↔
      Spaced rule anchor zone due x ∧ Searchable rule anchor zone x dueAt := by
  have based := closed.stored.anchor anchor closed.anchored
  constructor
  · intro advances
    have spaced : Spaced rule anchor zone due x := by
      intro date timeZone alone z produced next
      rcases advances with ⟨y,first,is⟩ | ⟨last,-⟩
      · have later := first.later
        have least := first.least z produced (by omega)
        have after := (nextListed ((successorSome closed first.produced).mp is)).1
        rw [dueAtNext closed first.produced alone (by omega)] at after
        exact absurd after (lt_irrefl _)
      · have := last z produced
        omega
    refine ⟨spaced,fun y next => ?_,fun last => ?_⟩
    · rcases advances with ⟨y',next',is⟩ | ⟨last,-⟩
      · have le := next.least y' next'.produced next'.later
        have ge := next'.least y next.produced next.later
        obtain rfl := sameOccurrence based next.produced next'.produced (by omega)
        exact (nextFound based.day based.clock (nextIsFirst closed spaced next) (dueInRange closed)).mp
          ((successorSome closed next.produced).mp is)
      · exact absurd next.later (Int.not_lt.mpr (last y next.produced))
    · rcases advances with ⟨y',next',-⟩ | ⟨-,is⟩
      · exact absurd next'.later (Int.not_lt.mpr (last y' next'.produced))
      · exact (nextMissing based.day based.clock (fun z produced => dueNotBefore closed produced (last z produced))
          (dueInRange closed)).mp ((successorNone closed).mp is)
  · rintro ⟨spaced,finds,finishes⟩
    rcases @nextOrLast rule anchor zone x with ⟨y,next⟩ | last
    · refine .inl ⟨y,next,(successorSome closed next.produced).mpr ?_⟩
      exact (nextFound based.day based.clock (nextIsFirst closed spaced next) (dueInRange closed)).mpr (finds y next)
    · refine .inr ⟨last,(successorNone closed).mpr ?_⟩
      exact (nextMissing based.day based.clock (fun z produced => dueNotBefore closed produced (last z produced))
        (dueInRange closed)).mpr (finishes last)

end

def everyDay : RecurrenceRule where
  freq := .daily
  interval := .finite 1
  count := none
  «until» := none
  byDay := []
  byMonthDay := []
  byMonth := []
  wkst := .mo
  parsed := by constructor <;> simp [JsNumber.atLeastOne]

def dailyHead (due : Due) : Task where
  id := 0
  familyId := 0
  title := "Feed the cat"
  notes := none
  priority := .normal
  category := none
  due := some due
  recurrenceRule := some everyDay
  recurrenceAnchor := some (dueLocalDateTime due)
  seriesId := some 0
  predecessorId := none
  isSeriesHead := true
  state := .opened
  overdueReportedFor := none
  assignees := []
  createdByMemberId := some 0
  version := 1

theorem dailyStored {due : Due} (fit : Fit due) (based : Based (dueLocalDateTime due)) : Stored (dailyHead due) :=
  ⟨fun _ is => Option.some.inj is ▸ fit,fun _ is => Option.some.inj is ▸ based⟩

def fedDue : Due := .dateTime ⟨2026,6,1⟩ ⟨18,30⟩ "Europe/London"
def fedToday : ExpandedOccurrence := ⟨⟨⟨2026,6,1⟩,18,30,0⟩,1780338600000⟩
def fedTomorrow : ExpandedOccurrence := ⟨⟨⟨2026,6,2⟩,18,30,0⟩,1780425000000⟩

theorem fedClosed : ClosedEarly everywhereUtc (dailyHead fedDue) everyDay ⟨⟨2026,6,1⟩,18,30,0⟩ Zone.utc fedDue fedToday
    1780338600000 1780300800000 where
  stored := dailyStored ⟨by decide,by decide,fun _ is => Option.some.inj is ▸ ⟨by decide,by decide⟩⟩
    ⟨⟨⟨by decide,by decide,by decide⟩,by decide,by decide⟩,rfl⟩
  flagged := rfl
  ruled := rfl
  anchored := rfl
  dated := rfl
  named := rfl
  scheduled := ⟨⟨1780272000000,1780531200000⟩,3,by decide +kernel⟩
  reading := rfl
  moment := by decide +kernel
  early := by decide

theorem fedAdvances : Advances everywhereUtc (dailyHead fedDue) everyDay ⟨⟨2026,6,1⟩,18,30,0⟩ Zone.utc fedDue fedToday
    1780300800000 := by
  have based := fedClosed.stored.anchor _ fedClosed.anchored
  have tomorrow : Produces everyDay ⟨⟨2026,6,1⟩,18,30,0⟩ Zone.utc fedTomorrow :=
    ⟨⟨1780272000000,1780531200000⟩,3,by decide +kernel⟩
  have expands : Expands (NextOccurrenceInput.of ⟨everyDay,⟨⟨2026,6,1⟩,18,30,0⟩,Zone.utc,1780338600000⟩
      ⟨1780338600001,1780338600001 + (2 : Nat) * msPerDay⟩) := by
    refine ⟨⟨[fedTomorrow,⟨⟨⟨2026,6,3⟩,18,30,0⟩,1780511400000⟩],false⟩,?_⟩
    decide +kernel
  obtain ⟨real,few,returns⟩ := (windowExpands based.day based.clock (by decide) (by decide) (by decide)).mp expands
  refine (advancesOne fedClosed).mpr ⟨fun date timeZone alone => (by cases alone),fun y next => ?_,
    fun last => absurd (last fedTomorrow tomorrow) (by decide)⟩
  have least := next.least fedTomorrow tomorrow (by decide)
  have later := next.later
  obtain rfl : y = fedTomorrow := sameOccurrence based next.produced tomorrow (le_antisymm least later)
  exact ⟨⟨tomorrow,fun counted => (by cases counted)⟩,_,List.mem_cons_self,by decide,real,few,returns⟩

/- Fed on any time of the day: closed at noon, the next day is skipped. -/

def fedAnyTime : Due := .date ⟨2026,6,1⟩ "Europe/London"

theorem anyTimeClosed : ClosedEarly everywhereUtc (dailyHead fedAnyTime) everyDay ⟨⟨2026,6,1⟩,0,0,0⟩ Zone.utc fedAnyTime
    ⟨⟨⟨2026,6,1⟩,0,0,0⟩,1780272000000⟩ 1780358400000 1780315200000 where
  stored := dailyStored ⟨by decide,by decide,fun _ is => (by cases is)⟩
    ⟨⟨⟨by decide,by decide,by decide⟩,by decide,by decide⟩,rfl⟩
  flagged := rfl
  ruled := rfl
  anchored := rfl
  dated := rfl
  named := rfl
  scheduled := ⟨⟨1780272000000,1780531200000⟩,3,by decide +kernel⟩
  reading := rfl
  moment := by decide +kernel
  early := by decide

theorem dateOnlySkips : ¬ ∀ (intl : Intl) (head : Task) (rule : RecurrenceRule) (anchor : LocalDateTime) (zone : Zone)
    (due : Due) (x : ExpandedOccurrence) (dueAt now : Instant), ClosedEarly intl head rule anchor zone due x dueAt now →
      Advances intl head rule anchor zone due x now := by
  intro all
  have tomorrow : Produces everyDay ⟨⟨2026,6,1⟩,0,0,0⟩ Zone.utc ⟨⟨⟨2026,6,2⟩,0,0,0⟩,1780358400000⟩ :=
    ⟨⟨1780272000000,1780531200000⟩,3,by decide +kernel⟩
  have third : successorDueOf everywhereUtc (dailyHead fedAnyTime) 1780315200000 =
      some (.ok (some (.date ⟨2026,6,3⟩ "Europe/London"))) := by decide +kernel
  rcases all _ _ _ _ _ _ _ _ _ anyTimeClosed with ⟨y,next,is⟩ | ⟨last,-⟩
  · rw [third] at is
    have date := congrArg Due.localDate (Option.some.inj (Except.ok.inj (Option.some.inj is)))
    have least := next.least _ tomorrow (by decide)
    rw [show y.reading.toDate = ⟨2026,6,3⟩ from date.symm] at least
    exact absurd least (by decide)
  · exact absurd (last _ tomorrow) (by decide)

end FamilyPlatform.Tasks
