import FamilyPlatform.Calendar.Event

/-! Which occurrences an event should have at a moment, and the difference between them
and the rows that there are. -/
namespace FamilyPlatform.Calendar
open ZonedTime Recurrence

def horizonDays : Nat := 400
def trailingDays : Nat := 400
def maxRangeDays : Nat := horizonDays

def materialisationWindow (now : Instant) : Window :=
  ⟨now - trailingDays * msPerDay,now + horizonDays * msPerDay⟩

/- An instant that is derived may be an invalid date. -/
structure PlannedOccurrence where
  startsAt : Instant
  endsAt : Option Instant
  deriving DecidableEq, Repr

structure OccurrencePlan where
  planned : List PlannedOccurrence
  materialisedThrough : Option Instant
  scopeFrom : Option Instant
  deriving DecidableEq, Repr

/- At its own instants, or from its first date to the end of its last. -/
def planOneOff (intl : Intl) (timeZone : String) : EventTiming → Option PlannedOccurrence
  | .timed startsAt endsAt => some ⟨startsAt,some endsAt⟩
  | .allDay startDate endDate => do
    let zone ← intl timeZone
    let first ← startOfDay zone startDate
    let afterLast ← addDays endDate 1
    let stop ← startOfDay zone afterLast
    some ⟨first,some stop⟩

def dtstartOf (zone : Zone) : EventTiming → Option LocalDateTime
  | .timed startsAt _ => instantToLocal zone startsAt
  | .allDay startDate _ => some (atTime startDate 0 0 0)

def planOccurrence (zone : Zone) (timing : EventTiming) (occurrence : ExpandedOccurrence) : Option PlannedOccurrence :=
  match timing with
  | .timed startsAt endsAt => some ⟨occurrence.instant,timeClip (occurrence.instant + (endsAt - startsAt))⟩
  | .allDay startDate endDate => do
    let last ← toEpochDay endDate
    let first ← toEpochDay startDate
    let afterLast ← addDays occurrence.reading.toDate (last - first + 1)
    let stop ← startOfDay zone afterLast
    some ⟨occurrence.instant,some stop⟩

def expansionOf (rule : RecurrenceRule) (dtstart : LocalDateTime) (zone : Zone) (window : Window) : ExpandInput :=
  ⟨rule,dtstart,zone,window,maxOccurrences⟩

def planSeries (zone : Zone) (rule : RecurrenceRule) (timing : EventTiming) (window : Window) :
    Option (Result OccurrencePlan) := do
  let dtstart ← dtstartOf zone timing
  match ← expand (expansionOf rule dtstart zone window) with
  | .error e => some (.error e)
  | .ok expansion => do
    let planned ← expansion.occurrences.mapM (planOccurrence zone timing)
    some (.ok ⟨planned,if expansion.exhausted then none else some window.stop,some window.start⟩)

/- Without a zone of that name there is no result, as where a date is out of range. -/
def planOccurrences (intl : Intl) (event : CalendarEvent) (window : Window) : Option (Result OccurrencePlan) :=
  match event.recurrenceRule with
  | none => (planOneOff intl event.timeZone event.timing).map (fun planned => .ok ⟨[planned],none,none⟩)
  | some rule => do
    let zone ← intl event.timeZone
    planSeries zone rule event.timing window

structure EventOccurrence where
  id : EventOccurrenceId
  eventId : CalendarEventId
  startsAt : Instant
  endsAt : Instant
  cancelledAt : Option Instant
  deriving DecidableEq, Repr

structure ReconcilePlan where
  toInsert : List PlannedOccurrence
  toUpdate : List (EventOccurrenceId × Option Instant)
  toDelete : List EventOccurrenceId
  deriving DecidableEq, Repr

/- A `Map` keeps the last of the entries with one key. -/
def rowAt (existing : List EventOccurrence) (startsAt : Instant) : Option EventOccurrence :=
  (existing.filter (fun row => row.startsAt = startsAt)).getLast?

structure Matching where
  plannedStarts : List Instant
  toInsert : List PlannedOccurrence
  toUpdate : List (EventOccurrenceId × Option Instant)
  deriving DecidableEq, Repr

def matchNext (existing : List EventOccurrence) (done : Matching) (occurrence : PlannedOccurrence) : Matching :=
  if occurrence.startsAt ∈ done.plannedStarts then done
  else
    let starts := done.plannedStarts ++ [occurrence.startsAt]
    match rowAt existing occurrence.startsAt with
    | none => { done with plannedStarts := starts, toInsert := done.toInsert ++ [occurrence] }
    | some row =>
      if some row.endsAt = occurrence.endsAt then { done with plannedStarts := starts }
      else { done with plannedStarts := starts, toUpdate := done.toUpdate ++ [(row.id, occurrence.endsAt)] }

def matchAll (planned : List PlannedOccurrence) (existing : List EventOccurrence) : Matching :=
  planned.foldl (matchNext existing) ⟨[],[],[]⟩

def reconcile (planned : List PlannedOccurrence) (existing : List EventOccurrence) : ReconcilePlan :=
  let done := matchAll planned existing
  ⟨done.toInsert,done.toUpdate,
    (existing.filter (fun row => row.startsAt ∉ done.plannedStarts)).map EventOccurrence.id⟩

end FamilyPlatform.Calendar
