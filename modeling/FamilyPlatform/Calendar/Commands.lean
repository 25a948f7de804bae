import FamilyPlatform.Calendar.Store

/-! The commands of the calendar as transactions over its tables. One that throws, or rolls
back with a domain error, leaves the tables as they were; an error that is returned commits. -/
namespace FamilyPlatform.Calendar
open ZonedTime Recurrence

structure Reader where
  familyId : FamilyId
  memberId : FamilyMemberId
  userId : Option UserId
  correlationId : String
  deriving DecidableEq, Repr

structure ResolvedVisibility where
  visible : List FamilyMemberId
  guardedChildren : List FamilyMemberId
  deriving DecidableEq, Repr

inductive View where
  | eventDetail | calendarRange | eventChange
  deriving DecidableEq, Repr

def View.name : View → String
  | eventDetail => "event detail"
  | calendarRange => "calendar range"
  | eventChange => "event change"

def hiddenParticipants (participants : List FamilyMemberId) (visibility : ResolvedVisibility) : List FamilyMemberId :=
  participants.filter (fun member => member ∉ visibility.visible)

def guardedChildParticipants (participants : List FamilyMemberId) (visibility : ResolvedVisibility) :
    List FamilyMemberId :=
  participants.filter (fun member => member ∈ visibility.guardedChildren)

def auditEntry (reader : Reader) (eventId : CalendarEventId) (view : View) (result : AuditResult)
    (childMemberId : FamilyMemberId) : AuditEntry :=
  { actorUserId := reader.userId, actorMemberId := reader.memberId, familyId := reader.familyId,
    subjectType := "family_member", subjectId := childMemberId, action := "calendar_participation.read",
    purpose := view.name ++ " of calendar event " ++ toString eventId, result := result,
    reason := match result with
      | .granted => none
      | .denied => some "event has a child participant the reader holds no active guardianship for (FR-016)",
    correlationId := reader.correlationId }

def Store.auditChildParticipation (s : Store) (reader : Reader) (eventId : CalendarEventId)
    (childMemberIds : List FamilyMemberId) (view : View) (result : AuditResult) : Store :=
  { s with audit := s.audit ++ childMemberIds.map (auditEntry reader eventId view result) }

/- Whoever asks, what the Family context and the database answer during the request, and
the readings of the clock. -/
structure Request where
  reader : Reader
  visibility : ResolvedVisibility
  familyMembers : List FamilyMemberId
  now : Instant
  transactionTime : Instant
  deriving DecidableEq, Repr

abbrev Outcome (α : Type) := Result α × Store

structure Rematerialised where
  window : Window
  counts : ReconcileCounts
  occurrenceCount : Nat
  deriving DecidableEq, Repr

def rematerialise (intl : Intl) (s : Store) (event : CalendarEvent) (now : Instant) :
    Except Thrown (Result (Rematerialised × CalendarEvent × Store)) := do
  let window := materialisationWindow now
  match ← orThrow .rangeError (planOccurrences intl event window) with
  | .error e => return .error e
  | .ok plan =>
    let existing := s.listForEvent event.id plan.scopeFrom
    let (counts, next) ← s.applyPlan event.id (reconcile plan.planned existing)
    return .ok (⟨window,counts,plan.planned.length⟩, event.recordMaterialisedThrough plan.materialisedThrough, next)

def publishMaterialised (s : Store) (event : CalendarEvent) (done : Rematerialised) : Store :=
  if event.isRecurring then
    s.publish (.occurrenceMaterialised event.id done.window.start done.window.stop done.occurrenceCount)
  else s

def replaceParticipants {α : Type} (s : Store) (r : Request) (event : CalendarEvent)
    (work : Store → Except Thrown (Outcome α)) (rollback : Store) : Except Thrown (Outcome α) :=
  match s.replaceForEvent r.familyMembers r.transactionTime event.id event.participants with
  | .error .participantNotInFamily => .ok (.error .participantInvalid, rollback)
  | .error e => .error e
  | .ok next => work next

structure CreateEventOutcome where
  eventId : CalendarEventId
  counts : ReconcileCounts
  deriving DecidableEq, Repr

def createEvent (intl : Intl) (s : Store) (r : Request) (eventId : CalendarEventId) (params : NewEvent) :
    Except Thrown (Outcome CreateEventOutcome) :=
  match CalendarEvent.create intl params eventId r.reader.memberId r.now with
  | .error e => .ok (.error e, s)
  | .ok event => do
    let inserted ← s.save event
    replaceParticipants inserted r event (fun joined => do
      match ← rematerialise intl joined event r.now with
      | .error e => return (.error e, s)
      | .ok (done, marked, filled) =>
        let saved ← filled.save marked
        let created := saved.publish (.eventCreated eventId marked.timing.kind marked.isRecurring)
        return (.ok ⟨eventId,done.counts⟩, publishMaterialised created marked done)) s

/- The event under its lock, if it is there and nobody who takes part is hidden. A hidden
one is answered as a missing one is, and the denial is recorded. -/
def whenReachable {α : Type} (s : Store) (r : Request) (eventId : CalendarEventId)
    (work : CalendarEvent → Except Thrown (Outcome α)) : Except Thrown (Outcome α) := do
  match ← s.lockById eventId with
  | none => return (.error .notFound, s)
  | some event =>
    let hidden := hiddenParticipants event.participants r.visibility
    if hidden ≠ [] then
      return (.error .notFound, s.auditChildParticipation r.reader event.id hidden .eventChange .denied)
    else work event

structure UpdateEventOutcome where
  changed : List ChangedFieldGroup
  reschedule : Bool
  event : CalendarEvent
  counts : Option ReconcileCounts
  deriving DecidableEq

def rescheduleEvent (intl : Intl) (s : Store) (r : Request) (event : CalendarEvent) (changed : List ChangedFieldGroup)
    (rollback : Store) : Except Thrown (Outcome UpdateEventOutcome) := do
  match ← rematerialise intl s event r.now with
  | .error e => return (.error e, rollback)
  | .ok (done, marked, filled) =>
    let saved ← filled.save marked
    return (.ok ⟨changed,true,marked,some done.counts⟩,
      (publishMaterialised saved marked done).publish (.eventUpdated event.id changed))

def afterParticipants (intl : Intl) (r : Request) (event : CalendarEvent) (changed : List ChangedFieldGroup)
    (rollback s : Store) : Except Thrown (Outcome UpdateEventOutcome) :=
  if CalendarEvent.reschedules changed then rescheduleEvent intl s r event changed rollback
  else .ok (.ok ⟨changed,false,event,none⟩, s.publish (.eventUpdated event.id changed))

def updateLocked (intl : Intl) (s : Store) (r : Request) (patch : EventPatch) (event : CalendarEvent) :
    Except Thrown (Outcome UpdateEventOutcome) :=
  match event.update intl patch r.now with
  | .error e => .ok (.error e, s)
  | .ok (updated, changed) =>
    if changed = [] then .ok (.ok ⟨changed,false,updated,none⟩, s)
    else do
      let saved ← s.save updated
      let rest := afterParticipants intl r updated changed s
      if .participants ∈ changed then replaceParticipants saved r updated rest s else rest saved

def updateEvent (intl : Intl) (s : Store) (r : Request) (eventId : CalendarEventId) (patch : EventPatch) :
    Except Thrown (Outcome UpdateEventOutcome) :=
  whenReachable s r eventId (updateLocked intl s r patch)

def cancelEvent (s : Store) (r : Request) (eventId : CalendarEventId) : Except Thrown (Outcome CalendarEvent) :=
  whenReachable s r eventId (fun event =>
    match event.cancel r.now with
    | none => .ok (.ok event, s)
    | some cancelled => do
      let saved ← s.save cancelled
      return (.ok cancelled, saved.publish (.eventCancelled event.id none)))

/- An occurrence of another event is not found under this one. -/
def findReachableOccurrence {α : Type} (s : Store) (r : Request) (eventId : CalendarEventId)
    (occurrenceId : EventOccurrenceId) (work : EventOccurrence → Except Thrown (Outcome α)) :
    Except Thrown (Outcome α) :=
  whenReachable s r eventId (fun event =>
    match (s.findOccurrence occurrenceId).filter (fun o => o.eventId = event.id) with
    | none => .ok (.error .notFound, s)
    | some occurrence => work occurrence)

def cancelOccurrence (s : Store) (r : Request) (eventId : CalendarEventId) (occurrenceId : EventOccurrenceId) :
    Except Thrown (Outcome EventOccurrence) :=
  findReachableOccurrence s r eventId occurrenceId (fun occurrence =>
    if occurrence.cancelledAt.isSome then .ok (.ok occurrence, s)
    else .ok (.ok { occurrence with cancelledAt := some r.now },
      (s.cancelOccurrenceRow occurrence.id r.now).publish (.eventCancelled occurrence.eventId (some occurrence.id))))

def rescheduleOccurrence (s : Store) (r : Request) (eventId : CalendarEventId) (occurrenceId : EventOccurrenceId) :
    Except Thrown (Outcome EventOccurrence) :=
  findReachableOccurrence s r eventId occurrenceId (fun _ => .ok (.error .occurrenceNotMovable, s))

inductive MaterialiseHorizonOutcome where
  | skipped
  | extended (counts : ReconcileCounts) (pruned : Nat)
  deriving DecidableEq, Repr

def materialiseHorizon (intl : Intl) (s : Store) (now : Instant) (eventId : CalendarEventId) :
    Except Thrown (Outcome MaterialiseHorizonOutcome) := do
  match ← s.lockById eventId with
  | none => return (.ok .skipped, s)
  | some event =>
    if !event.isRecurring || event.isCancelled then return (.ok .skipped, s)
    else if event.materialisedThrough.all ((materialisationWindow now).stop ≤ ·) then return (.ok .skipped, s)
    else match ← rematerialise intl s event now with
      | .error e => return (.error e, s)
      | .ok (done, marked, filled) =>
        let (pruned, rest) := filled.pruneForEventBefore event.id done.window.start
        let saved ← rest.save marked
        return (.ok (.extended done.counts pruned),
          saved.publish (.occurrenceMaterialised event.id done.window.start done.window.stop done.occurrenceCount))

def pruneTrailingOccurrences (s : Store) (now : Instant) : Nat × Store :=
  s.pruneRecurringBefore (materialisationWindow now).start

end FamilyPlatform.Calendar
