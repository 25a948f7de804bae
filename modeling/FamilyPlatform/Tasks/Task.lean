import FamilyPlatform.Tasks.Due

/-! One thing that must get done. Every instance of a recurring chore is a task of its
own; the series is its identifier, the chain of predecessors and the one head. -/
namespace FamilyPlatform.Tasks
open ZonedTime Recurrence

abbrev TaskId := Nat
abbrev TaskSeriesId := Nat
abbrev FamilyId := Nat
abbrev FamilyMemberId := Nat

inductive TaskPriority where
  | low | normal | high
  deriving DecidableEq, Repr

inductive TaskCategory where
  | household | school | health | finance | administration | other
  deriving DecidableEq, Repr

inductive TaskStatus where
  | opened | completed | cancelled
  deriving DecidableEq, Repr

def TaskStatus.name : TaskStatus → String
  | opened => "open"
  | completed => "completed"
  | cancelled => "cancelled"

inductive TaskState where
  | opened
  | completed (time : Instant) (member : Option FamilyMemberId)
  | cancelled (time : Instant) (member : Option FamilyMemberId)
  deriving DecidableEq, Repr

def TaskState.status : TaskState → TaskStatus
  | opened => .opened
  | completed _ _ => .completed
  | cancelled _ _ => .cancelled

inductive ChangedFieldGroup where
  | details | due | recurrence | assignees | status
  deriving DecidableEq, Repr

structure Task where
  id : TaskId
  familyId : FamilyId
  title : String
  notes : Option String
  priority : TaskPriority
  category : Option TaskCategory
  due : Option Due
  recurrenceRule : Option RecurrenceRule
  recurrenceAnchor : Option LocalDateTime
  seriesId : Option TaskSeriesId
  predecessorId : Option TaskId
  isSeriesHead : Bool
  state : TaskState
  overdueReportedFor : Option Instant
  assignees : List FamilyMemberId
  createdByMemberId : Option FamilyMemberId
  version : Nat
  deriving DecidableEq

/- Of an absent field nothing is changed; a field that can be cleared may hold null. -/
structure TaskPatch where
  title : Option String
  notes : Option (Option String)
  priority : Option TaskPriority
  category : Option (Option TaskCategory)
  due : Option (Option Due)
  recurrenceRule : Option (Option String)
  deriving DecidableEq, Repr

def titleMax : Nat := 200
def notesMax : Nat := 4000

def validateTitle (raw : String) : Result String :=
  let title := Text.trim raw
  if title = "" then .error (.nameRequired "A task needs a title.")
  else if titleMax < Text.utf16Length title then
    .error (.nameRequired ("A title is at most " ++ toString titleMax ++ " characters."))
  else .ok title

def normaliseNotes : Option String → Result (Option String)
  | none => .ok none
  | some value =>
    let trimmed := Text.trim value
    if notesMax < Text.utf16Length trimmed then
      .error (.nameRequired ("Notes are at most " ++ toString notesMax ++ " characters."))
    else .ok (if trimmed = "" then none else some trimmed)

def parseRule : Option String → Result (Option RecurrenceRule)
  | none => .ok none
  | some text => (RecurrenceRule.parse text).map some

/- A set keeps the first of equal members in its place. -/
def uniqueMembers (members : List FamilyMemberId) : List FamilyMemberId :=
  members.foldl (fun seen member => if member ∈ seen then seen else seen ++ [member]) []

structure NewTask where
  title : String
  notes : Option String
  priority : Option TaskPriority
  category : Option TaskCategory
  due : Option Due
  recurrenceRule : Option String
  assignees : List FamilyMemberId
  deriving DecidableEq, Repr

namespace Task

def create (params : NewTask) (id : TaskId) (familyId : FamilyId) (newSeriesId : TaskSeriesId)
    (createdByMemberId : FamilyMemberId) : Result Task := do
  let title ← validateTitle params.title
  let notes ← normaliseNotes params.notes
  let rule ← parseRule params.recurrenceRule
  if rule.isSome && params.due.isNone then .error .recurrenceRequiresDue
  else
    let anchor := if rule.isSome then params.due.map dueLocalDateTime else none
    .ok { id := id, familyId := familyId, title := title, notes := notes,
          priority := params.priority.getD .normal, category := params.category, due := params.due,
          recurrenceRule := rule, recurrenceAnchor := anchor,
          seriesId := if rule.isSome then some newSeriesId else none, predecessorId := none,
          isSeriesHead := rule.isSome, state := .opened, overdueReportedFor := none,
          assignees := uniqueMembers params.assignees, createdByMemberId := some createdByMemberId,
          version := 1 }

/- Everything authored is carried forward, assignees included. -/
def successorOf (id : TaskId) (head : Task) (due : Due) (createdByMemberId : FamilyMemberId) : Task :=
  { id := id, familyId := head.familyId, title := head.title, notes := head.notes,
    priority := head.priority, category := head.category, due := some due,
    recurrenceRule := head.recurrenceRule, recurrenceAnchor := head.recurrenceAnchor,
    seriesId := head.seriesId, predecessorId := some head.id, isSeriesHead := true, state := .opened,
    overdueReportedFor := none, assignees := head.assignees,
    createdByMemberId := some createdByMemberId, version := 1 }

def dueAt (intl : Intl) (t : Task) : Option (Option Instant) :=
  match t.due with
  | none => some none
  | some due => (dueMomentOf intl due).map some

def isOpen (t : Task) : Bool := t.state.status = .opened

def refuse {α : Type} (t : Task) (command : String) : Result α :=
  .error (.invalidTransition t.state.status.name command)

def commit (t : Task) : Task := { t with version := t.version + 1 }

abbrev Edit := Task × List ChangedFieldGroup

def change (changed : List ChangedFieldGroup) (group : ChangedFieldGroup) : List ChangedFieldGroup :=
  if group ∈ changed then changed else changed ++ [group]

def noteChange (differs : Bool) (group : ChangedFieldGroup) (edit : Edit) : Edit :=
  (edit.1, if differs then change edit.2 group else edit.2)

def updateTitle (patch : TaskPatch) (edit : Edit) : Result Edit :=
  match patch.title with
  | none => .ok edit
  | some raw => do
    let title ← validateTitle raw
    let (next, changed) := noteChange (title ≠ edit.1.title) .details edit
    .ok ({ next with title := title }, changed)

def updateNotes (patch : TaskPatch) (edit : Edit) : Result Edit :=
  match patch.notes with
  | none => .ok edit
  | some raw => do
    let notes ← normaliseNotes raw
    let (next, changed) := noteChange (notes ≠ edit.1.notes) .details edit
    .ok ({ next with notes := notes }, changed)

def updatePriority (patch : TaskPatch) (edit : Edit) : Edit :=
  let priority := patch.priority.getD edit.1.priority
  let (next, changed) := noteChange (priority ≠ edit.1.priority) .details edit
  ({ next with priority := priority }, changed)

def updateCategory (patch : TaskPatch) (edit : Edit) : Edit :=
  let category := patch.category.getD edit.1.category
  let (next, changed) := noteChange (category ≠ edit.1.category) .details edit
  ({ next with category := category }, changed)

def updateDue (intl : Intl) (patch : TaskPatch) (edit : Edit) : Option Edit :=
  match patch.due with
  | none => some edit
  | some due => do
    let same ← sameDue intl due edit.1.due
    let (next, changed) := noteChange (!same) .due edit
    some ({ next with due := due }, changed)

/- The anchor moves only when the rule does; a task that lost the head flag keeps its rule. -/
def updateRecurrence (patch : TaskPatch) (newSeriesId : TaskSeriesId) (edit : Edit) : Result Edit :=
  match patch.recurrenceRule with
  | none => .ok edit
  | some text => do
    let rule ← parseRule text
    let (next, changed) := edit
    if next.recurrenceRule.map RecurrenceRule.toText = rule.map RecurrenceRule.toText then .ok edit
    else if next.seriesId.isSome && !next.isSeriesHead then next.refuse "edit"
    else match rule, next.due with
      | none, _ =>
        .ok ({ next with recurrenceRule := none, recurrenceAnchor := none, isSeriesHead := false },
          change changed .recurrence)
      | some _, none => .error .recurrenceRequiresDue
      | some rule, some due =>
        .ok ({ next with recurrenceRule := some rule, recurrenceAnchor := some (dueLocalDateTime due),
                         seriesId := next.seriesId.or (some newSeriesId), isSeriesHead := true },
          change changed .recurrence)

def finish (t : Task) (edit : Edit) : Result Edit :=
  if edit.1.recurrenceRule.isSome && edit.1.due.isNone then .error .recurrenceRequiresDue
  else .ok (if edit.2 = [] then (t, []) else (commit edit.1, edit.2))

def update (intl : Intl) (t : Task) (patch : TaskPatch) (newSeriesId : TaskSeriesId) : Option (Result Edit) :=
  if !t.isOpen then some (t.refuse "edit")
  else
    let details := do
      let titled ← updateTitle patch (t, [])
      updateNotes patch titled
    match details with
    | .error e => some (.error e)
    | .ok details => do
      let dated ← updateDue intl patch (updateCategory patch (updatePriority patch details))
      some (do
        let edited ← updateRecurrence patch newSeriesId dated
        finish t edited)

def complete (t : Task) (member : FamilyMemberId) (now : Instant) : Result Task :=
  if !t.isOpen then t.refuse "complete" else .ok (commit { t with state := .completed now (some member) })

/- Never touches the head flag. -/
def reopen (t : Task) : Result Task :=
  if t.state.status ≠ .completed then t.refuse "reopen" else .ok (commit { t with state := .opened })

def cancel (t : Task) (member : FamilyMemberId) (now : Instant) : Result Task :=
  if !t.isOpen then t.refuse "cancel" else .ok (commit { t with state := .cancelled now (some member) })

def assign (t : Task) (member : FamilyMemberId) : Result (Option Task) :=
  if !t.isOpen then t.refuse "assign"
  else if member ∈ t.assignees then .ok none
  else .ok (some (commit { t with assignees := t.assignees ++ [member] }))

def unassign (t : Task) (member : FamilyMemberId) : Result (Option Task) :=
  if !t.isOpen then t.refuse "unassign"
  else if member ∉ t.assignees then .ok none
  else .ok (some (commit { t with assignees := t.assignees.filter (· ≠ member) }))

def relinquishHead (t : Task) : Task := { t with isSeriesHead := false }

def isOverdue (intl : Intl) (t : Task) (now : Instant) : Option Bool :=
  (t.dueAt intl).map (fun dueAt => t.isOpen && dueAt.any (· ≤ now))

/- Not a member's change, and so of the same version. -/
def recordOverdueReported (intl : Intl) (t : Task) : Option Task :=
  (t.dueAt intl).map (fun dueAt => { t with overdueReportedFor := dueAt })

end Task

/- Once for each due moment. -/
def needsOverdueReport (intl : Intl) (t : Task) (now : Instant) : Option Bool := do
  let dueAt ← t.dueAt intl
  let overdue ← t.isOverdue intl now
  some (overdue && dueAt.isSome && t.overdueReportedFor ≠ dueAt)

/- A due of the closing head's kind and zone at a reading of its rule. -/
def dueAtReading (due : Due) (reading : LocalDateTime) : Due :=
  match due with
  | .date _ timeZone => .date reading.toDate timeZone
  | .dateTime _ _ timeZone => .dateTime reading.toDate ⟨reading.hour,reading.minute⟩ timeZone

/- The first date of the rule after both the due moment and the closing moment. -/
def successorDueOf (intl : Intl) (head : Task) (closedAt : Instant) : Option (Result (Option Due)) := do
  let dueAt ← head.dueAt intl
  match head.isSeriesHead, head.recurrenceRule, head.recurrenceAnchor, head.due, dueAt with
  | true, some rule, some anchor, some due, some dueAt => do
    let zone ← intl due.timeZone
    let next ← nextOccurrenceAfter ⟨rule,anchor,zone,max dueAt closedAt⟩
    some (next.map (fun found => found.map (fun occurrence => dueAtReading due occurrence.reading)))
  | _, _, _, _, _ => some (.ok none)

end FamilyPlatform.Tasks
