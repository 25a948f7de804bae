import Mathlib.Data.List.Dedup
import FamilyPlatform.Lib.Table
import FamilyPlatform.Calendar.Materialisation

/-! The calendar tables of a family, and the repositories over them. Row-level security shows
a transaction the rows of no other family. -/
namespace FamilyPlatform.Calendar
open ZonedTime

inductive Thrown where
  | rangeError
  | invalidDate
  | unparsableRule
  | checkViolation (constraint : String)
  | foreignKeyViolation (constraint : String)
  | participantNotInFamily
  deriving DecidableEq, Repr

def orThrow {α : Type} (thrown : Thrown) : Option α → Except Thrown α
  | some value => .ok value
  | none => .error thrown

/- The CHECK `event_shape` admits the columns of a timed event, or those of an all-day one. -/
structure EventRow where
  id : CalendarEventId
  title : String
  description : Option String
  location : Option String
  timing : EventTiming
  timeZone : String
  category : Option EventCategory
  recurrenceRule : Option String
  attachmentRefs : List String
  status : EventStatus
  materialisedThrough : Option Instant
  createdByMemberId : Option FamilyMemberId
  createdAt : Instant
  updatedAt : Instant
  deriving DecidableEq, Repr

structure EventParticipant where
  eventId : CalendarEventId
  memberId : FamilyMemberId
  addedAt : Instant
  deriving DecidableEq, Repr

def EventParticipant.key (p : EventParticipant) : CalendarEventId × FamilyMemberId := (p.eventId, p.memberId)

inductive CalendarMessage where
  | eventCreated (eventId : CalendarEventId) (kind : EventKind) (recurring : Bool)
  | eventUpdated (eventId : CalendarEventId) (changed : List ChangedFieldGroup)
  | eventCancelled (eventId : CalendarEventId) (occurrenceId : Option EventOccurrenceId)
  | occurrenceMaterialised (eventId : CalendarEventId) (windowFrom windowTo : Instant) (count : Nat)
  deriving DecidableEq, Repr

inductive AuditResult where
  | granted | denied
  deriving DecidableEq, Repr

structure AuditEntry where
  actorUserId : Option UserId
  actorMemberId : FamilyMemberId
  familyId : FamilyId
  subjectType : String
  subjectId : FamilyMemberId
  action : String
  purpose : String
  result : AuditResult
  reason : Option String
  correlationId : String
  deriving DecidableEq, Repr

/- One row for an event and a start. An identifier that was drawn is not drawn again. -/
structure Occurrences extends Table EventOccurrence EventOccurrence.id where
  issued : Nat
  drawn : ∀ o ∈ rows, o.id < issued
  slots : (rows.map (fun o => (o.eventId, o.startsAt))).Nodup

namespace Occurrences

def empty : Occurrences := ⟨.empty,0,by simp,by simp⟩

def deleteWhere (t : Occurrences) (p : EventOccurrence → Bool) : Occurrences where
  toTable := t.toTable.deleteWhere p
  issued := t.issued
  drawn o mem := t.drawn o (List.mem_of_mem_filter mem)
  slots := t.slots.sublist (List.filter_sublist.map _)

def Rewrites (f : EventOccurrence → EventOccurrence) : Prop :=
  ∀ o, (f o).id = o.id ∧ (f o).eventId = o.eventId ∧ (f o).startsAt = o.startsAt

def updateWhere (t : Occurrences) (p : EventOccurrence → Bool) (f : EventOccurrence → EventOccurrence)
    (keeps : Rewrites f) : Occurrences where
  toTable := t.toTable.updateWhere p f (fun o => (keeps o).1)
  issued := t.issued
  drawn o mem := by
    obtain ⟨old,source,rfl⟩ := List.mem_map.mp mem
    have less := t.drawn old source
    split
    · rwa [(keeps old).1]
    · exact less
  slots := by
    have same : ((fun o : EventOccurrence => (o.eventId, o.startsAt)) ∘ fun o => if p o then f o else o) =
        fun o => (o.eventId, o.startsAt) := by
      funext o
      simp only [Function.comp]
      split
      · rw [(keeps o).2.1,(keeps o).2.2]
      · rfl
    simp only [Table.updateWhere,List.map_map,same]
    exact t.slots

/- `ON CONFLICT (event_id, starts_at) DO NOTHING`. -/
def insertOrSkip (t : Occurrences) (eventId : CalendarEventId) (startsAt endsAt : Instant) : Occurrences :=
  if free : ∀ o ∈ t.rows, (o.eventId, o.startsAt) ≠ (eventId, startsAt) then
    { rows := t.rows ++ [⟨t.issued,eventId,startsAt,endsAt,none⟩]
      distinct := by
        rw [List.map_append,List.nodup_append]
        refine ⟨t.distinct,List.nodup_singleton _,?_⟩
        rintro a left b right rfl
        obtain ⟨o,source,rfl⟩ := List.mem_map.mp left
        exact absurd (t.drawn o source) (by rw [List.mem_singleton.mp right]; exact Nat.lt_irrefl _)
      issued := t.issued + 1
      drawn := by
        intro o mem
        rcases List.mem_append.mp mem with old | new
        · exact Nat.lt_succ_of_lt (t.drawn o old)
        · rw [List.mem_singleton.mp new]
          exact Nat.lt_succ_self _
      slots := by
        rw [List.map_append,List.nodup_append]
        refine ⟨t.slots,List.nodup_singleton _,?_⟩
        rintro a left b right rfl
        obtain ⟨o,source,rfl⟩ := List.mem_map.mp left
        exact free o source (List.mem_singleton.mp right) }
  else t

end Occurrences

/- The foreign keys lead to the events; those to the members are checked where a row is written. -/
structure Store where
  events : Table EventRow EventRow.id
  occurrences : Occurrences
  participants : Table EventParticipant EventParticipant.key
  outbox : List CalendarMessage
  audit : List AuditEntry
  owned : ∀ o ∈ occurrences.rows, (events.find o.eventId).isSome
  joined : ∀ p ∈ participants.rows, (events.find p.eventId).isSome

def Store.empty : Store := ⟨.empty,.empty,.empty,[],[],by simp [Occurrences.empty],by simp⟩

/- Through `Date.UTC`, with its years 1900 to 1999 for 0 to 99. -/
def localDateToDbDate (date : LocalDate) : Option LocalDate :=
  (dateUtc date.year date.month date.day 0 0 0).map utcDate

def dbTiming : EventTiming → Except Thrown EventTiming
  | .timed startsAt endsAt => .ok (.timed startsAt endsAt)
  | .allDay startDate endDate => do
    let first ← orThrow .invalidDate (localDateToDbDate startDate)
    let last ← orThrow .invalidDate (localDateToDbDate endDate)
    return .allDay first last

def rowOf (event : CalendarEvent) : Except Thrown EventRow := do
  let timing ← dbTiming event.timing
  return { id := event.id, title := event.title, description := event.description, location := event.location,
           timing := timing, timeZone := event.timeZone, category := event.category,
           recurrenceRule := event.recurrenceRule.map RecurrenceRule.toText, attachmentRefs := event.attachmentRefs,
           status := event.status, materialisedThrough := event.materialisedThrough,
           createdByMemberId := event.createdByMemberId, createdAt := event.createdAt, updatedAt := event.updatedAt }

def inOrder : EventTiming → Bool
  | .timed startsAt endsAt => startsAt ≤ endsAt
  | .allDay startDate endDate => startDate.number ≤ endDate.number

def permitEvent (row : EventRow) : Except Thrown Unit :=
  if !inOrder row.timing then .error (.checkViolation "event_order")
  else if row.timeZone.toList.all (· = ' ') then .error (.checkViolation "event_time_zone_present")
  else .ok ()

def permitOccurrence (startsAt endsAt : Instant) : Except Thrown Unit :=
  if endsAt < startsAt then .error (.checkViolation "occurrence_order") else .ok ()

def storedRule (row : EventRow) : Except Thrown (Option RecurrenceRule) :=
  match row.recurrenceRule with
  | none => .ok none
  | some text => match RecurrenceRule.parse text with
    | .ok rule => .ok (some rule)
    | .error _ => .error .unparsableRule

def toAggregate (row : EventRow) (participants : List FamilyMemberId) : Except Thrown CalendarEvent := do
  let rule ← storedRule row
  return { id := row.id, title := row.title, description := row.description, location := row.location,
           category := row.category, timing := row.timing, timeZone := row.timeZone, recurrenceRule := rule,
           attachmentRefs := row.attachmentRefs, status := row.status, participants := participants,
           materialisedThrough := row.materialisedThrough, createdByMemberId := row.createdByMemberId,
           createdAt := row.createdAt, updatedAt := row.updatedAt }

structure ReconcileCounts where
  inserted : Nat
  updated : Nat
  deleted : Nat
  deriving DecidableEq, Repr

def addedOrder (a b : EventParticipant) : Prop :=
  a.addedAt < b.addedAt ∨ (a.addedAt = b.addedAt ∧ a.memberId ≤ b.memberId)

instance : DecidableRel addedOrder := fun _ _ => inferInstanceAs (Decidable (_ ∨ _))

def startOrder (a b : EventOccurrence) : Prop := a.startsAt ≤ b.startsAt

instance : DecidableRel startOrder := fun a b => inferInstanceAs (Decidable (a.startsAt ≤ b.startsAt))

def EventRow.onto (row old : EventRow) : EventRow :=
  { row with id := old.id, createdByMemberId := old.createdByMemberId, createdAt := old.createdAt }

theorem EventRow.ontoId (row old : EventRow) : (row.onto old).id = old.id := rfl

namespace Store

def participantsOf (s : Store) (eventId : CalendarEventId) : List FamilyMemberId :=
  ((s.participants.rows.filter (fun p => p.eventId = eventId)).insertionSort addedOrder).map EventParticipant.memberId

def findById (s : Store) (eventId : CalendarEventId) : Except Thrown (Option CalendarEvent) :=
  match s.events.find eventId with
  | none => .ok none
  | some row => (toAggregate row (s.participantsOf eventId)).map some

/- The row lock is taken first. -/
def lockById (s : Store) (eventId : CalendarEventId) : Except Thrown (Option CalendarEvent) := s.findById eventId

def writeEvent (s : Store) (row : EventRow) : Store where
  events := s.events.upsert row row.onto row.ontoId
  occurrences := s.occurrences
  participants := s.participants
  outbox := s.outbox
  audit := s.audit
  owned o mem := by
    rw [Table.findUpsert]
    split
    · rfl
    · exact s.owned o mem
  joined p mem := by
    rw [Table.findUpsert]
    split
    · rfl
    · exact s.joined p mem

def save (s : Store) (event : CalendarEvent) : Except Thrown Store := do
  let row ← rowOf event
  permitEvent row
  return s.writeEvent row

def listForEvent (s : Store) (eventId : CalendarEventId) (startingFrom : Option Instant) : List EventOccurrence :=
  (s.occurrences.rows.filter (fun o => o.eventId = eventId && startingFrom.all (· ≤ o.startsAt))).insertionSort
    startOrder

def findOccurrence (s : Store) (occurrenceId : EventOccurrenceId) : Option EventOccurrence :=
  s.occurrences.find occurrenceId

def deleteOccurrences (s : Store) (p : EventOccurrence → Bool) : Store :=
  { s with
    occurrences := s.occurrences.deleteWhere p
    owned := fun o mem => s.owned o (List.mem_of_mem_filter mem) }

def updateOccurrences (s : Store) (p : EventOccurrence → Bool) (f : EventOccurrence → EventOccurrence)
    (keeps : Occurrences.Rewrites f) : Store :=
  { s with
    occurrences := s.occurrences.updateWhere p f keeps
    owned := by
      intro o mem
      obtain ⟨old,source,rfl⟩ := List.mem_map.mp mem
      have there := s.owned old source
      split
      · rwa [(keeps old).2.1]
      · exact there }

def updateEnd (s : Store) (eventId : CalendarEventId) (update : EventOccurrenceId × Option Instant) :
    Except Thrown Store := do
  let endsAt ← orThrow .invalidDate update.2
  let addressed := fun o : EventOccurrence => decide (o.id = update.1) && decide (o.eventId = eventId)
  if s.occurrences.rows.any (fun o => addressed o && endsAt < o.startsAt) then throw (.checkViolation "occurrence_order")
  return s.updateOccurrences addressed (fun o => { o with endsAt := endsAt }) (fun _ => ⟨rfl,rfl,rfl⟩)

def insertPlanned (s : Store) (eventId : CalendarEventId) (occurrence : PlannedOccurrence) : Except Thrown Store := do
  let endsAt ← orThrow .invalidDate occurrence.endsAt
  permitOccurrence occurrence.startsAt endsAt
  if there : (s.events.find eventId).isSome then
    return { s with
      occurrences := s.occurrences.insertOrSkip eventId occurrence.startsAt endsAt
      owned := by
        intro o mem
        unfold Occurrences.insertOrSkip at mem
        split at mem
        · rcases List.mem_append.mp mem with old | new
          · exact s.owned o old
          · rwa [List.mem_singleton.mp new]
        · exact s.owned o mem }
  else throw (.foreignKeyViolation "event_occurrence_event_id_family_id_fkey")

/- In this order; `cancelled_at` is not written. -/
def applyPlan (s : Store) (eventId : CalendarEventId) (plan : ReconcilePlan) :
    Except Thrown (ReconcileCounts × Store) := do
  let kept := s.deleteOccurrences (fun o => o.eventId = eventId && o.id ∈ plan.toDelete)
  let updated ← plan.toUpdate.foldlM (fun s update => s.updateEnd eventId update) kept
  let inserted ← plan.toInsert.foldlM (fun s occurrence => s.insertPlanned eventId occurrence) updated
  return (⟨inserted.occurrences.rows.length - updated.occurrences.rows.length,plan.toUpdate.length,
    s.occurrences.rows.length - kept.occurrences.rows.length⟩, inserted)

def cancelOccurrenceRow (s : Store) (occurrenceId : EventOccurrenceId) (time : Instant) : Store :=
  s.updateOccurrences (fun o => o.id = occurrenceId && o.cancelledAt.isNone)
    (fun o => { o with cancelledAt := some time }) (fun _ => ⟨rfl,rfl,rfl⟩)

def pruneForEventBefore (s : Store) (eventId : CalendarEventId) (before : Instant) : Nat × Store :=
  let pruned := s.deleteOccurrences (fun o => o.eventId = eventId && o.startsAt < before)
  (s.occurrences.rows.length - pruned.occurrences.rows.length, pruned)

def pruneRecurringBefore (s : Store) (before : Instant) : Nat × Store :=
  let pruned := s.deleteOccurrences (fun o =>
    o.startsAt < before && (s.events.find o.eventId).any (fun row => row.recurrenceRule.isSome))
  (s.occurrences.rows.length - pruned.occurrences.rows.length, pruned)

/- The foreign key onto the members of the family decides who may take part. -/
def replaceForEvent (s : Store) (familyMembers : List FamilyMemberId) (time : Instant) (eventId : CalendarEventId)
    (members : List FamilyMemberId) : Except Thrown Store :=
  let kept := s.participants.deleteWhere (fun p => p.eventId = eventId && p.memberId ∉ members)
  let fresh := members.dedup.filter (fun m => (kept.find (eventId, m)).isNone)
  if there : ∀ m ∈ fresh, m ∈ familyMembers ∧ (s.events.find eventId).isSome then
    .ok { s with
      participants := kept.append (fresh.map (fun m => ⟨eventId,m,time⟩))
        (by
          rw [List.map_map]
          exact ((List.nodup_dedup members).filter _).map (fun a b same => (Prod.mk.inj same).2))
        (by
          intro p mem
          obtain ⟨m,source,rfl⟩ := List.mem_map.mp mem
          exact Option.isNone_iff_eq_none.mp (List.mem_filter.mp source).2)
      joined := by
        intro p mem
        rcases List.mem_append.mp mem with old | new
        · exact s.joined p (List.mem_of_mem_filter old)
        · obtain ⟨m,source,rfl⟩ := List.mem_map.mp new
          exact (there m source).2 }
  else .error .participantNotInFamily

def publish (s : Store) (message : CalendarMessage) : Store := { s with outbox := s.outbox ++ [message] }

end Store
end FamilyPlatform.Calendar
