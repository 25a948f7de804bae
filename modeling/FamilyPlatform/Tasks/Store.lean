import FamilyPlatform.Lib.Table
import FamilyPlatform.Lib.Machine
import FamilyPlatform.Tasks.Task

/-! The task tables, and the commands as transactions over them. A transaction that
fails, or rolls back with a domain error, leaves the tables as they were. -/
namespace FamilyPlatform.Tasks
open ZonedTime

inductive Thrown where
  | rangeError
  | unparsableRule
  | uniqueViolation (constraint : String)
  | checkViolation (constraint : String)
  | foreignKeyViolation (constraint : String)
  | assigneeNotInFamily
  | seriesInvariantViolated (constraint : String)
  | stillFlaggedHead
  deriving DecidableEq, Repr

def orThrow {α : Type} : Option α → Except Thrown α
  | some value => .ok value
  | none => .error .rangeError

/- What `columns` writes on every save. -/
structure TaskColumns where
  title : String
  notes : Option String
  priority : TaskPriority
  category : Option TaskCategory
  status : TaskStatus
  dueKind : DueKind
  dueDate : Option LocalDate
  dueLocalTime : Option LocalTime
  timeZone : Option String
  dueAt : Option Instant
  recurrenceRule : Option String
  recurrenceAnchor : Option LocalDateTime
  seriesId : Option TaskSeriesId
  isSeriesHead : Bool
  completedAt : Option Instant
  completedByMemberId : Option FamilyMemberId
  cancelledAt : Option Instant
  cancelledByMemberId : Option FamilyMemberId
  closedAt : Option Instant
  overdueReportedFor : Option Instant
  version : Nat
  deriving DecidableEq, Repr

structure TaskRow extends TaskColumns where
  id : TaskId
  familyId : FamilyId
  predecessorId : Option TaskId
  createdByMemberId : Option FamilyMemberId
  deriving DecidableEq, Repr

structure TaskAssignment where
  taskId : TaskId
  memberId : FamilyMemberId
  assignedAt : Instant
  deriving DecidableEq, Repr

/- Through `Date.UTC`, with its years 1900 to 1999 for 0 to 99. -/
def localDateToDb (date : LocalDate) : Option LocalDate :=
  (dateUtc date.year date.month date.day 0 0 0).map utcDate

def localTimeToDb (time : LocalTime) : Option LocalTime :=
  (dateUtc 1970 1 1 time.hour time.minute 0).map (fun ms =>
    ⟨(readingOf (ms / 1000)).hour,(readingOf (ms / 1000)).minute⟩)

def localDateTimeToDb (reading : LocalDateTime) : Option LocalDateTime :=
  (dateUtc reading.year reading.month reading.day reading.hour reading.minute reading.second).map
    (fun ms => readingOf (ms / 1000))

def convert {α β : Type} (f : α → Option β) : Option α → Except Thrown (Option β)
  | none => .ok none
  | some value => orThrow ((f value).map some)

def completion : TaskState → Option (Instant × Option FamilyMemberId)
  | .completed time member => some (time, member)
  | _ => none

def cancellation : TaskState → Option (Instant × Option FamilyMemberId)
  | .cancelled time member => some (time, member)
  | _ => none

def columns (intl : Intl) (t : Task) : Except Thrown TaskColumns := do
  let dueDate ← convert localDateToDb (t.due.map Due.localDate)
  let dueLocalTime ← convert localTimeToDb (t.due.bind Due.localTime)
  let dueAt ← orThrow (t.dueAt intl)
  let anchor ← convert localDateTimeToDb t.recurrenceAnchor
  return {
    title := t.title, notes := t.notes, priority := t.priority, category := t.category,
    status := t.state.status, dueKind := (t.due.map Due.kind).getD .none, dueDate := dueDate,
    dueLocalTime := dueLocalTime, timeZone := t.due.map Due.timeZone, dueAt := dueAt,
    recurrenceRule := t.recurrenceRule.map RecurrenceRule.toText, recurrenceAnchor := anchor,
    seriesId := t.seriesId, isSeriesHead := t.isSeriesHead,
    completedAt := (completion t.state).map Prod.fst,
    completedByMemberId := (completion t.state).bind Prod.snd,
    cancelledAt := (cancellation t.state).map Prod.fst,
    cancelledByMemberId := (cancellation t.state).bind Prod.snd,
    closedAt := ((completion t.state).or (cancellation t.state)).map Prod.fst,
    overdueReportedFor := t.overdueReportedFor, version := t.version }

/- The shapes that throw here are unreachable under the constraints below. -/
def toDue (row : TaskRow) : Option (Option Due) :=
  match row.dueKind, row.dueDate, row.timeZone, row.dueLocalTime with
  | .none, _, _, _ => some none
  | .date, some date, some timeZone, _ => some (some (.date date timeZone))
  | .dateTime, some date, some timeZone, some time => some (some (.dateTime date time timeZone))
  | _, _, _, _ => none

def toState (row : TaskRow) : Option TaskState :=
  match row.status, row.completedAt, row.cancelledAt with
  | .completed, some time, _ => some (.completed time row.completedByMemberId)
  | .cancelled, _, some time => some (.cancelled time row.cancelledByMemberId)
  | .opened, _, _ => some .opened
  | _, _, _ => none

def storedRule (row : TaskRow) : Except Thrown (Option RecurrenceRule) :=
  match row.recurrenceRule with
  | none => .ok none
  | some text => match RecurrenceRule.parse text with
    | .ok rule => .ok (some rule)
    | .error _ => .error .unparsableRule

def toAggregate (row : TaskRow) (assignees : List FamilyMemberId) : Except Thrown Task := do
  let rule ← storedRule row
  let due ← orThrow (toDue row)
  let state ← orThrow (toState row)
  return { id := row.id, familyId := row.familyId, title := row.title, notes := row.notes,
           priority := row.priority, category := row.category, due := due, recurrenceRule := rule,
           recurrenceAnchor := row.recurrenceAnchor, seriesId := row.seriesId,
           predecessorId := row.predecessorId, isSeriesHead := row.isSeriesHead, state := state,
           overdueReportedFor := row.overdueReportedFor, assignees := assignees,
           createdByMemberId := row.createdByMemberId, version := row.version }

/- `issued` numbers the identifiers drawn so far, which are never drawn again. -/
structure Store where
  tasks : Table TaskRow TaskRow.id
  assignments : List TaskAssignment
  issued : Nat
  deriving DecidableEq

def Store.empty : Store := ⟨.empty,[],0⟩

def recurrenceShape (row : TaskRow) : Bool :=
  (row.recurrenceRule.isNone && row.recurrenceAnchor.isNone) ||
  (row.recurrenceRule.isSome && row.recurrenceAnchor.isSome && row.seriesId.isSome && row.dueKind ≠ .none)

def headIsInASeries (row : TaskRow) : Bool := !row.isSeriesHead || row.seriesId.isSome

def checks (row : TaskRow) : List (String × Bool) :=
  [("task_due_shape", match row.dueKind with
      | .none => row.dueDate.isNone && row.dueLocalTime.isNone && row.timeZone.isNone && row.dueAt.isNone
      | .date => row.dueDate.isSome && row.dueLocalTime.isNone && row.timeZone.isSome && row.dueAt.isSome
      | .dateTime =>
        row.dueDate.isSome && row.dueLocalTime.isSome && row.timeZone.isSome && row.dueAt.isSome),
   ("task_recurrence_shape", recurrenceShape row),
   ("task_status_shape", match row.status with
      | .opened => row.completedAt.isNone && row.cancelledAt.isNone
      | .completed => row.completedAt.isSome && row.cancelledAt.isNone
      | .cancelled => row.cancelledAt.isSome && row.completedAt.isNone),
   ("task_closed_at_consistent", row.closedAt = row.completedAt.or row.cancelledAt),
   ("task_head_is_in_a_series", headIsInASeries row),
   ("task_title_present", row.title.toList.any (· ≠ ' ')),
   ("task_version_positive", 1 ≤ row.version && row.version < 2 ^ 31)]

def failedCheck (row : TaskRow) : Option String :=
  ((checks row).find? (fun check => !check.2)).map Prod.fst

/- The unique indexes, against the other rows of the table. -/
def violatedIndex (others : List TaskRow) (row : TaskRow) : Option String :=
  if row.predecessorId.isSome && others.any (fun r => r.predecessorId = row.predecessorId) then
    some "task_predecessor_id_key"
  else if row.isSeriesHead && row.seriesId.isSome &&
      others.any (fun r => r.isSeriesHead && r.seriesId = row.seriesId) then
    some "task_one_head_per_series"
  else none

def permit (others : List TaskRow) (row : TaskRow) : Except Thrown Unit :=
  match failedCheck row, violatedIndex others row with
  | some constraint, _ => .error (.checkViolation constraint)
  | none, some constraint => .error (.uniqueViolation constraint)
  | none, none => .ok ()

namespace Store

def assigneesOf (s : Store) (taskId : TaskId) : List FamilyMemberId :=
  ((s.assignments.filter (fun a => a.taskId = taskId)).insertionSort
    (fun a b => a.assignedAt < b.assignedAt ∨ (a.assignedAt = b.assignedAt ∧ a.memberId ≤ b.memberId))).map
    TaskAssignment.memberId

/- Row-level security: a row of another family is not there. -/
def lockById (s : Store) (familyId : FamilyId) (taskId : TaskId) : Except Thrown (Option Task) :=
  match (s.tasks.find taskId).filter (fun row => row.familyId = familyId) with
  | none => .ok none
  | some row => (toAggregate row (s.assigneesOf taskId)).map some

def insert (intl : Intl) (s : Store) (familyId : FamilyId) (t : Task) : Except Thrown Store := do
  let written ← columns intl t
  let row : TaskRow := { written with id := t.id, familyId := familyId, predecessorId := t.predecessorId,
                                      createdByMemberId := t.createdByMemberId }
  permit s.tasks.rows row
  if t.predecessorId.all (fun p => (s.tasks.find p).isSome) then
    match s.tasks.insert row with
    | some tasks => return { s with tasks := tasks }
    | none => throw (.uniqueViolation "task_pkey")
  else throw (.foreignKeyViolation "task_predecessor_id_fkey")

def save (intl : Intl) (s : Store) (t : Task) : Except Thrown Store := do
  let written ← columns intl t
  let row ← orThrow (s.tasks.find t.id)
  permit (s.tasks.rows.filter (fun r => r.id ≠ t.id)) { row with toTaskColumns := written }
  return { s with tasks := s.tasks.update t.id (fun r => { r with toTaskColumns := written }) (fun _ => rfl) }

/- The head flag of the predecessor is cleared before its successor is inserted. -/
def handOverHead (intl : Intl) (s : Store) (familyId : FamilyId) (predecessor successor : Task) :
    Except Thrown Store :=
  if predecessor.isSeriesHead then .error .stillFlaggedHead
  else
    let handed := do
      let saved ← s.save intl predecessor
      saved.insert intl familyId successor
    match handed with
    | .error (.uniqueViolation constraint) => .error (.seriesInvariantViolated constraint)
    | other => other

/- The foreign key onto the members of the family decides who may be assigned. -/
def addAssignments (s : Store) (familyMembers : List FamilyMemberId) (time : Instant) (taskId : TaskId)
    (members : List FamilyMemberId) : Except Thrown Store :=
  let fresh := members.dedup.filter (fun m => s.assignments.all (fun a => !(a.taskId = taskId ∧ a.memberId = m)))
  if fresh.all (· ∈ familyMembers) then
    .ok { s with assignments := s.assignments ++ fresh.map (fun m => ⟨taskId,m,time⟩) }
  else .error .assigneeNotInFamily

def removeAssignment (s : Store) (taskId : TaskId) (member : FamilyMemberId) : Store :=
  { s with assignments := s.assignments.filter (fun a => !(a.taskId = taskId ∧ a.memberId = member)) }

end Store

inductive Scope where
  | instance_ | series
  deriving DecidableEq, Repr

inductive Command where
  | createTask (params : NewTask)
  | updateTask (taskId : TaskId) (expectedVersion : Nat) (patch : TaskPatch)
  | completeTask (taskId : TaskId) (expectedVersion : Nat)
  | cancelTask (taskId : TaskId) (expectedVersion : Nat) (scope : Scope)
  | reopenTask (taskId : TaskId) (expectedVersion : Nat)
  | assignTask (taskId : TaskId) (assigneeId : FamilyMemberId)
  | unassignTask (taskId : TaskId) (assigneeId : FamilyMemberId)
  deriving DecidableEq, Repr

/- A command with what the clock, the database and the Family context answer during it. -/
structure Request where
  command : Command
  familyId : FamilyId
  memberId : FamilyMemberId
  visible : List FamilyMemberId
  familyMembers : List FamilyMemberId
  now : Instant
  transactionTime : Instant
  deriving DecidableEq, Repr

structure Reply where
  task : Task
  successor : Option Task
  deriving DecidableEq

abbrev Answer := Except Thrown (Result (Reply × Store))

def lockVisibleTask (s : Store) (r : Request) (taskId : TaskId) (expectedVersion : Option Nat) :
    Except Thrown (Result Task) := do
  match ← s.lockById r.familyId taskId with
  | none => return .error .notFound
  | some task =>
    if task.assignees.any (· ∉ r.visible) then return .error .notFound
    else if expectedVersion.any (· ≠ task.version) then return .error (.versionConflict task.version)
    else return .ok task

def whenLocked (s : Store) (r : Request) (taskId : TaskId) (expectedVersion : Option Nat)
    (work : Task → Answer) : Answer := do
  match ← lockVisibleTask s r taskId expectedVersion with
  | .error e => return .error e
  | .ok task => work task

def createTask (intl : Intl) (s : Store) (r : Request) (params : NewTask) : Answer :=
  match Task.create params s.issued r.familyId s.issued r.memberId with
  | .error e => .ok (.error e)
  | .ok task => do
    let inserted ← s.insert intl r.familyId task
    match inserted.addAssignments r.familyMembers r.transactionTime task.id task.assignees with
    | .error .assigneeNotInFamily => return .error .assigneeInvalid
    | .error e => throw e
    | .ok last => return .ok (⟨task,none⟩, last)

def saveAnd (intl : Intl) (s : Store) (moved : Result Task) (after : Store → Task → Answer) : Answer :=
  match moved with
  | .error e => .ok (.error e)
  | .ok task => do
    let saved ← s.save intl task
    after saved task

def unaccompanied (s : Store) (task : Task) : Answer := .ok (.ok (⟨task,none⟩, s))

def updateLocked (intl : Intl) (s : Store) (patch : TaskPatch) (task : Task) : Answer := do
  match ← orThrow (task.update intl patch s.issued) with
  | .error e => return .error e
  | .ok (task, changed) =>
    if changed = [] then unaccompanied s task else saveAnd intl s (.ok task) unaccompanied

def updateTask (intl : Intl) (s : Store) (r : Request) (taskId : TaskId) (expectedVersion : Nat)
    (patch : TaskPatch) : Answer :=
  whenLocked s r taskId (some expectedVersion) (updateLocked intl s patch)

/- An error of the rule, too, rolls the whole transaction back. -/
def spawnSuccessor (intl : Intl) (s : Store) (r : Request) (head : Task) : Answer := do
  match ← orThrow (successorDueOf intl head r.now) with
  | .error e => return .error e
  | .ok none => return .ok (⟨head,none⟩, s)
  | .ok (some due) =>
    let successor := Task.successorOf s.issued head due r.memberId
    let handed ← s.handOverHead intl r.familyId head.relinquishHead successor
    let last ← handed.addAssignments r.familyMembers r.transactionTime successor.id successor.assignees
    return .ok (⟨head.relinquishHead,some successor⟩, last)

def completeLocked (intl : Intl) (s : Store) (r : Request) (task : Task) : Answer :=
  saveAnd intl s (task.complete r.memberId r.now) (fun saved => spawnSuccessor intl saved r)

def completeTask (intl : Intl) (s : Store) (r : Request) (taskId : TaskId) (expectedVersion : Nat) : Answer :=
  whenLocked s r taskId (some expectedVersion) (completeLocked intl s r)

def cancelLocked (intl : Intl) (s : Store) (r : Request) (scope : Scope) (task : Task) : Answer :=
  saveAnd intl s (task.cancel r.memberId r.now) (fun saved cancelled =>
    if scope = .series then unaccompanied saved cancelled else spawnSuccessor intl saved r cancelled)

def cancelTask (intl : Intl) (s : Store) (r : Request) (taskId : TaskId) (expectedVersion : Nat)
    (scope : Scope) : Answer :=
  whenLocked s r taskId (some expectedVersion) (cancelLocked intl s r scope)

def reopenLocked (intl : Intl) (s : Store) (task : Task) : Answer := saveAnd intl s task.reopen unaccompanied

def reopenTask (intl : Intl) (s : Store) (r : Request) (taskId : TaskId) (expectedVersion : Nat) : Answer :=
  whenLocked s r taskId (some expectedVersion) (reopenLocked intl s)

def assignLocked (intl : Intl) (s : Store) (r : Request) (taskId : TaskId) (assigneeId : FamilyMemberId)
    (task : Task) : Answer :=
  match task.assign assigneeId with
  | .error e => .ok (.error e)
  | .ok none => unaccompanied s task
  | .ok (some assigned) =>
    match s.addAssignments r.familyMembers r.transactionTime taskId [assigneeId] with
    | .error .assigneeNotInFamily => .ok (.error .assigneeInvalid)
    | .error e => .error e
    | .ok added => saveAnd intl added (.ok assigned) unaccompanied

def assignTask (intl : Intl) (s : Store) (r : Request) (taskId : TaskId) (assigneeId : FamilyMemberId) : Answer :=
  whenLocked s r taskId none (assignLocked intl s r taskId assigneeId)

def unassignLocked (intl : Intl) (s : Store) (taskId : TaskId) (assigneeId : FamilyMemberId) (task : Task) : Answer :=
  match task.unassign assigneeId with
  | .error e => .ok (.error e)
  | .ok none => unaccompanied s task
  | .ok (some unassigned) => saveAnd intl (s.removeAssignment taskId assigneeId) (.ok unassigned) unaccompanied

def unassignTask (intl : Intl) (s : Store) (r : Request) (taskId : TaskId) (assigneeId : FamilyMemberId) :
    Answer :=
  whenLocked s r taskId none (unassignLocked intl s taskId assigneeId)

def perform (intl : Intl) (s : Store) (r : Request) : Answer :=
  match r.command with
  | .createTask params => createTask intl s r params
  | .updateTask taskId version patch => updateTask intl s r taskId version patch
  | .completeTask taskId version => completeTask intl s r taskId version
  | .cancelTask taskId version scope => cancelTask intl s r taskId version scope
  | .reopenTask taskId version => reopenTask intl s r taskId version
  | .assignTask taskId assignee => assignTask intl s r taskId assignee
  | .unassignTask taskId assignee => unassignTask intl s r taskId assignee

/- Each request draws its identifiers, whether or not it comes to use them. -/
def handle (intl : Intl) (s : Store) (r : Request) : Except Thrown (Result Reply) × Store :=
  match perform intl s r with
  | .ok (.ok (reply, next)) => (.ok (.ok reply), { next with issued := s.issued + 1 })
  | .ok (.error e) => (.ok (.error e), { s with issued := s.issued + 1 })
  | .error e => (.error e, { s with issued := s.issued + 1 })

end FamilyPlatform.Tasks
