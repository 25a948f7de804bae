import FamilyPlatform.Tasks.Works

/-! The reads of tasks: one by its identifier, and the lists of the open and of the closed
ones, page by page. A list leaves out in its query what the reader may not see. -/
namespace FamilyPlatform.Tasks
open ZonedTime

def maxRangeDays : Nat := 400
def maxPageSize : Int := 200
def defaultPageSize : Int := 50
def msPerDay : Int := 86400000

/- Whoever asks: the members that they may see and those of the family, as the Family context
answers, and the readings of the clock during the request. -/
structure Reader where
  familyId : FamilyId
  memberId : FamilyMemberId
  visible : List FamilyMemberId
  familyMembers : List FamilyMemberId
  now : Instant
  transactionTime : Instant
  deriving DecidableEq, Repr

structure OpenCursor where
  dueAt : Option Instant
  id : TaskId
  deriving DecidableEq, Repr

structure ClosedCursor where
  closedAt : Instant
  id : TaskId
  deriving DecidableEq, Repr

structure TaskPage (C : Type) where
  items : List Task
  next : Option C
  deriving DecidableEq

/- A bound may be left out, and one that is given may be no real instant. -/
def checkRange (start stop : Option (Option Instant)) : Option DomainError :=
  if start = some none ∨ stop = some none then some (.invalidTimeRange "Range bounds must be real instants.")
  else match start.join, stop.join with
    | some start, some stop =>
      if stop ≤ start then some (.invalidTimeRange "The end of a range must be after its start.")
      else if maxRangeDays * msPerDay < stop - start then some (.rangeTooWide maxRangeDays)
      else none
    | _, _ => none

def pageSize (limit : Option Int) : Nat := (min (max (limit.getD defaultPageSize) 1) maxPageSize).toNat

def page {C : Type} (rows : List Task) (limit : Nat) (cursorOf : Task → Except Thrown C) :
    Except Thrown (TaskPage C) :=
  match (rows.take limit).getLast? with
  | some last =>
    if limit < rows.length then do
      let next ← cursorOf last
      return ⟨rows.take limit,some next⟩
    else .ok ⟨rows.take limit,none⟩
  | none => .ok ⟨rows.take limit,none⟩

structure OpenListQuery where
  visibleMemberIds : List FamilyMemberId
  assignee : Option FamilyMemberId
  overdueAt : Option Instant
  dueFrom : Option Instant
  dueTo : Option Instant
  after : Option OpenCursor
  limit : Nat

structure ClosedListQuery where
  visibleMemberIds : List FamilyMemberId
  start : Option Instant
  stop : Option Instant
  after : Option ClosedCursor
  limit : Nat

def openOrder (a b : TaskRow) : Prop :=
  match a.dueAt, b.dueAt with
  | some x, some y => x < y ∨ (x = y ∧ a.id ≤ b.id)
  | some _, none => True
  | none, some _ => False
  | none, none => a.id ≤ b.id

instance : DecidableRel openOrder := fun a b => by
  unfold openOrder
  split <;> infer_instance

def OpenCursor.before (after : OpenCursor) (row : TaskRow) : Bool :=
  match after.dueAt with
  | none => row.dueAt.isNone && after.id < row.id
  | some dueAt => row.dueAt.any (dueAt < ·) || (row.dueAt = some dueAt && after.id < row.id) || row.dueAt.isNone

def closedOrder (a b : TaskRow) : Prop :=
  b.closedAt.getD 0 < a.closedAt.getD 0 ∨ (a.closedAt.getD 0 = b.closedAt.getD 0 ∧ b.id ≤ a.id)

instance : DecidableRel closedOrder := fun a b => by
  unfold closedOrder
  infer_instance

def ClosedCursor.before (after : ClosedCursor) (row : TaskRow) : Bool :=
  row.closedAt.any (· < after.closedAt) || (row.closedAt = some after.closedAt && row.id < after.id)

namespace Store

def findById (s : Store) (familyId : FamilyId) (taskId : TaskId) : Except Thrown (Option Task) :=
  s.lockById familyId taskId

/- Of nobody visible, only what is assigned to nobody. -/
def visibleOnly (s : Store) (visible : List FamilyMemberId) (row : TaskRow) : Bool :=
  s.assignments.all (fun a => a.taskId ≠ row.id || visible.contains a.memberId)

def assignedTo (s : Store) (member : FamilyMemberId) (row : TaskRow) : Bool :=
  s.assignments.any (fun a => a.taskId = row.id && a.memberId = member)

def loadInOrder (s : Store) (familyId : FamilyId) (ids : List TaskId) : Except Thrown (List Task) := do
  let found ← ids.mapM (fun id => s.findById familyId id)
  return found.filterMap id

def selectsOpen (s : Store) (familyId : FamilyId) (q : OpenListQuery) (row : TaskRow) : Bool :=
  row.familyId = familyId && row.status = .opened && s.visibleOnly q.visibleMemberIds row &&
  q.assignee.all (fun member => s.assignedTo member row) &&
  q.overdueAt.all (fun now => row.dueAt.any (· ≤ now)) &&
  q.dueFrom.all (fun start => row.dueAt.any (start ≤ ·)) && q.dueTo.all (fun stop => row.dueAt.any (· < stop)) &&
  q.after.all (fun after => after.before row)

def listOpen (s : Store) (familyId : FamilyId) (q : OpenListQuery) : Except Thrown (List Task) :=
  s.loadInOrder familyId
    ((((s.tasks.rows.filter (s.selectsOpen familyId q)).insertionSort openOrder).take q.limit).map TaskRow.id)

def selectsClosed (s : Store) (familyId : FamilyId) (q : ClosedListQuery) (row : TaskRow) : Bool :=
  row.familyId = familyId && row.status ≠ .opened && q.start.all (fun start => row.closedAt.any (start ≤ ·)) &&
  q.stop.all (fun stop => row.closedAt.any (· < stop)) && s.visibleOnly q.visibleMemberIds row &&
  q.after.all (fun after => after.before row)

def listClosed (s : Store) (familyId : FamilyId) (q : ClosedListQuery) : Except Thrown (List Task) :=
  s.loadInOrder familyId
    ((((s.tasks.rows.filter (s.selectsClosed familyId q)).insertionSort closedOrder).take q.limit).map TaskRow.id)

end Store

structure OpenTasksInput where
  assignee : Option FamilyMemberId
  overdueAt : Option Instant
  dueFrom : Option (Option Instant)
  dueTo : Option (Option Instant)
  after : Option OpenCursor
  limit : Option Int
  deriving DecidableEq, Repr

structure TaskHistoryInput where
  start : Option Instant
  stop : Option Instant
  after : Option ClosedCursor
  limit : Option Int
  deriving DecidableEq, Repr

def listOpenTasks (intl : Intl) (s : Store) (reader : Reader) (input : OpenTasksInput) :
    Except Thrown (Result (TaskPage OpenCursor)) :=
  match checkRange input.dueFrom input.dueTo with
  | some invalid => .ok (.error invalid)
  | none => do
    let limit := pageSize input.limit
    let rows ← s.listOpen reader.familyId
      ⟨reader.visible,input.assignee,input.overdueAt,input.dueFrom.join,input.dueTo.join,input.after,limit + 1⟩
    let found ← page rows limit (fun task => (orThrow (task.dueAt intl)).map (fun dueAt => OpenCursor.mk dueAt task.id))
    return .ok found

/- The query gives closed tasks only, so that each has a time for the cursor. -/
def listTaskHistory (s : Store) (reader : Reader) (input : TaskHistoryInput) :
    Except Thrown (Result (TaskPage ClosedCursor)) :=
  match checkRange (some input.start) (some input.stop) with
  | some invalid => .ok (.error invalid)
  | none => do
    let limit := pageSize input.limit
    let rows ← s.listClosed reader.familyId ⟨reader.visible,input.start,input.stop,input.after,limit + 1⟩
    let found ← page rows limit (fun task =>
      orThrow (((completion task.state).or (cancellation task.state)).map (fun closed =>
        ClosedCursor.mk closed.1 task.id)))
    return .ok found

def getTask (s : Store) (reader : Reader) (taskId : TaskId) : Except Thrown (Result Task) := do
  match ← s.findById reader.familyId taskId with
  | none => return .error .notFound
  | some task =>
    if task.assignees.any (· ∉ reader.visible) then return .error .notFound else return .ok task

def walk {C : Type} (fetch : Option C → Except Thrown (Result (TaskPage C))) :
    Nat → Option C → List (Except Thrown (Result (TaskPage C)))
  | 0, _ => []
  | n + 1, after =>
    fetch after :: match fetch after with
      | .ok (.ok ⟨_,some next⟩) => walk fetch n (some next)
      | _ => []

end FamilyPlatform.Tasks
