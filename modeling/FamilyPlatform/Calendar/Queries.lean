import FamilyPlatform.Calendar.Commands

/-! The reads of the calendar: one event, and the occurrences that overlap a range. What the
range leaves out is looked up a second time, for the record of it alone. -/
namespace FamilyPlatform.Calendar
open ZonedTime Recurrence

def getEvent (s : Store) (r : Request) (eventId : CalendarEventId) : Except Thrown (Outcome CalendarEvent) := do
  match ← s.findById eventId with
  | none => return (.error .notFound, s)
  | some event =>
    let hidden := hiddenParticipants event.participants r.visibility
    if hidden ≠ [] then
      return (.error .notFound, s.auditChildParticipation r.reader event.id hidden .eventDetail .denied)
    else
      let children := guardedChildParticipants event.participants r.visibility
      return (.ok event, s.auditChildParticipation r.reader event.id children .eventDetail .granted)

/- The last date of an all-day occurrence has NaN fields where it is out of range. -/
structure OccurrenceView where
  occurrenceId : EventOccurrenceId
  eventId : CalendarEventId
  startsAt : Instant
  endsAt : Instant
  cancelledAt : Option Instant
  kind : EventKind
  startDate : Option LocalDate
  endDate : Option (Option LocalDate)
  title : String
  timeZone : String
  location : Option String
  category : Option EventCategory
  status : EventStatus
  participants : List FamilyMemberId
  deriving DecidableEq, Repr

structure RangeQuery where
  start : Instant
  stop : Instant
  visibleMemberIds : List FamilyMemberId
  deriving DecidableEq, Repr

/- The instant is read in the authored zone; without a zone of that name it is a RangeError. -/
def viewDates (intl : Intl) (o : EventOccurrence) (row : EventRow) :
    Except Thrown (Option LocalDate × Option (Option LocalDate)) :=
  match row.timing with
  | .timed _ _ => .ok (none, none)
  | .allDay startDate endDate => do
    let zone ← orThrow .rangeError (intl row.timeZone)
    let reading ← orThrow .rangeError (instantToLocal zone o.startsAt)
    let last := do
      let stop ← toEpochDay endDate
      let start ← toEpochDay startDate
      addDays reading.toDate (stop - start)
    return (some reading.toDate, some last)

def viewOf (intl : Intl) (o : EventOccurrence) (row : EventRow) (participants : List FamilyMemberId) :
    Except Thrown OccurrenceView := do
  let (startDate, endDate) ← viewDates intl o row
  return { occurrenceId := o.id, eventId := o.eventId, startsAt := o.startsAt, endsAt := o.endsAt,
           cancelledAt := o.cancelledAt, kind := row.timing.kind, startDate := startDate, endDate := endDate,
           title := row.title, timeZone := row.timeZone, location := row.location, category := row.category,
           status := row.status, participants := participants }

def rangeOrder (a b : EventOccurrence) : Prop := a.startsAt < b.startsAt ∨ (a.startsAt = b.startsAt ∧ a.id ≤ b.id)

instance : DecidableRel rangeOrder := fun _ _ => inferInstanceAs (Decidable (_ ∨ _))

def keyOrder (a b : EventParticipant) : Prop :=
  a.eventId < b.eventId ∨ (a.eventId = b.eventId ∧ a.memberId ≤ b.memberId)

instance : DecidableRel keyOrder := fun _ _ => inferInstanceAs (Decidable (_ ∨ _))

namespace RangeQuery

/- One of no length at the start of the range overlaps it, too. -/
def overlaps (q : RangeQuery) (o : EventOccurrence) : Bool :=
  o.startsAt < q.stop && (q.start < o.endsAt || q.start ≤ o.startsAt)

def hides (q : RangeQuery) (p : EventParticipant) : Bool := p.memberId ∉ q.visibleMemberIds

end RangeQuery

namespace Store

def selects (s : Store) (q : RangeQuery) (o : EventOccurrence) : Bool :=
  q.overlaps o && !s.participants.rows.any (fun p => p.eventId = o.eventId && q.hides p)

def listVisibleInRange (intl : Intl) (s : Store) (q : RangeQuery) : Except Thrown (List OccurrenceView) :=
  let selected := (s.occurrences.rows.filter (s.selects q)).insertionSort rangeOrder
  let joined := selected.filterMap (fun o => (s.events.find o.eventId).map (fun row => (o, row)))
  joined.mapM (fun (o, row) => viewOf intl o row (s.participantsOf o.eventId))

def listHiddenParticipationsInRange (s : Store) (q : RangeQuery) : List (CalendarEventId × FamilyMemberId) :=
  let excluded := s.participants.rows.filter (fun p =>
    q.hides p && s.occurrences.rows.any (fun o => o.eventId = p.eventId && q.overlaps o))
  (excluded.insertionSort keyOrder).map EventParticipant.key

end Store

def addMembers (members more : List FamilyMemberId) : List FamilyMemberId :=
  more.foldl (fun members member => if member ∈ members then members else members ++ [member]) members

abbrev Grouped := List (CalendarEventId × List FamilyMemberId)

def groupNext (grouped : Grouped) (row : CalendarEventId × List FamilyMemberId) : Grouped :=
  setEntry row.1 (addMembers ((grouped.lookup row.1).getD []) row.2) grouped

def groupByEvent (rows : List (CalendarEventId × List FamilyMemberId)) : Grouped := rows.foldl groupNext []

def auditGrouped (s : Store) (reader : Reader) (grouped : Grouped) (result : AuditResult) : Store :=
  grouped.foldl (fun s entry => s.auditChildParticipation reader entry.1 entry.2 .calendarRange result) s

def checkRange (start stop : Option Instant) : Result (Instant × Instant) :=
  match start, stop with
  | some start, some stop =>
    if stop ≤ start then .error (.invalidTimeRange "to must be after from.")
    else if maxRangeDays * msPerDay < stop - start then .error (.rangeTooWide maxRangeDays)
    else .ok (start, stop)
  | _, _ => .error (.invalidTimeRange "from and to must be real instants.")

def listOccurrences (intl : Intl) (s : Store) (r : Request) (start stop : Option Instant) :
    Except Thrown (Outcome (List OccurrenceView)) :=
  match checkRange start stop with
  | .error e => .ok (.error e, s)
  | .ok (start, stop) => do
    let query : RangeQuery := ⟨start,stop,r.visibility.visible⟩
    let visible ← s.listVisibleInRange intl query
    let hidden := s.listHiddenParticipationsInRange query
    let reached := groupByEvent (visible.map (fun view =>
      (view.eventId, guardedChildParticipants view.participants r.visibility)))
    let excluded := groupByEvent (hidden.map (fun (eventId, member) => (eventId, [member])))
    return (.ok visible, auditGrouped (auditGrouped s r.reader reached .granted) r.reader excluded .denied)

end FamilyPlatform.Calendar
