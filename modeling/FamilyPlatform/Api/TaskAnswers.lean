import FamilyPlatform.Api.TaskRoutes
import FamilyPlatform.Membership.Store
import FamilyPlatform.Tasks.Works

/-! What the mutating routes answer with, and whom a member may see when they do. -/
namespace FamilyPlatform.TaskApi
open Idempotency (Response)
open Tasks (TaskId TaskSeriesId FamilyId FamilyMemberId Task TaskPriority TaskCategory TaskStatus Due LocalTime Command Reply)
open ZonedTime

/- A removed adult stays visible, and a child only to an active guardian. -/
def resolveVisibleMemberIds (viewer : FamilyMemberId) (familyId : FamilyId) (s : Membership.Store) : List FamilyMemberId :=
  let guarded := (s.guardianships.rows.filter (fun g =>
    g.familyId = familyId && g.guardianMemberId = viewer && g.isActive)).map Membership.Guardianship.childMemberId
  (s.members.rows.filter (fun m => m.familyId = familyId && (m.kind = .adult || guarded.contains m.id))).map
    Membership.FamilyMember.id

def familyMembers (familyId : FamilyId) (s : Membership.Store) : List FamilyMemberId :=
  (s.members.rows.filter (fun m => m.familyId = familyId)).map Membership.FamilyMember.id

inductive DueBody where
  | date (date timeZone : String)
  | dateTime (date time timeZone : String)
  deriving DecidableEq, Repr

structure TaskBody where
  taskId : TaskId
  version : Nat
  title : String
  notes : Option String
  priority : TaskPriority
  category : Option TaskCategory
  status : TaskStatus
  due : Option DueBody
  dueAt : Option Instant
  isOverdue : Bool
  recurrenceRule : Option String
  seriesId : Option TaskSeriesId
  isSeriesHead : Bool
  predecessorId : Option TaskId
  assigneeIds : List FamilyMemberId
  createdByMemberId : Option FamilyMemberId
  completedAt : Option Instant
  completedByMemberId : Option FamilyMemberId
  cancelledAt : Option Instant
  cancelledByMemberId : Option FamilyMemberId
  deriving DecidableEq, Repr

def formatLocalDate (date : LocalDate) : String :=
  RecurrenceRule.padded date.year 4 ++ "-" ++ RecurrenceRule.padded date.month 2 ++ "-" ++ RecurrenceRule.padded date.day 2

def formatLocalTime (time : LocalTime) : String :=
  RecurrenceRule.padded time.hour 2 ++ ":" ++ RecurrenceRule.padded time.minute 2

def toDueBody : Due → DueBody
  | .date date timeZone => .date (formatLocalDate date) timeZone
  | .dateTime date time timeZone => .dateTime (formatLocalDate date) (formatLocalTime time) timeZone

def toTaskBody (intl : Intl) (task : Task) (now : Instant) : Option TaskBody := do
  let dueAt ← task.dueAt intl
  let isOverdue ← task.isOverdue intl now
  some {
    taskId := task.id, version := task.version, title := task.title, notes := task.notes, priority := task.priority,
    category := task.category, status := task.state.status, due := task.due.map toDueBody, dueAt := dueAt,
    isOverdue := isOverdue, recurrenceRule := task.recurrenceRule.map RecurrenceRule.toText, seriesId := task.seriesId,
    isSeriesHead := task.isSeriesHead, predecessorId := task.predecessorId, assigneeIds := task.assignees,
    createdByMemberId := task.createdByMemberId,
    completedAt := (Tasks.completion task.state).map Prod.fst,
    completedByMemberId := (Tasks.completion task.state).bind Prod.snd,
    cancelledAt := (Tasks.cancellation task.state).map Prod.fst,
    cancelledByMemberId := (Tasks.cancellation task.state).bind Prod.snd }

inductive Problem where
  | notFound
  | invalidRequest
  | unknownTimeZone
  | invalidDue (field reason : String)
  | recurrenceInvalid (reason : String)
  | recurrenceUnsupported (part : String)
  | recurrenceRequiresDue
  | assigneeInvalid
  | invalidTransition (source command : String)
  | versionConflict (currentVersion : Nat)
  | internalError
  deriving DecidableEq, Repr

inductive Body where
  | task (task : TaskBody)
  | closed (task : TaskBody) (successor : Option TaskBody)
  | problem (problem : Problem)
  deriving DecidableEq, Repr

def Body.tasks : Body → List TaskBody
  | .task own => [own]
  | .closed own successor => own :: successor.toList
  | .problem _ => []

def Body.assignees (b : Body) : List FamilyMemberId := b.tasks.flatMap TaskBody.assigneeIds

/- An exception is answered by the framework, and stored no more than a refusal. -/
def notFound : Response Body := ⟨404,.problem .notFound⟩
def internalError : Response Body := ⟨500,.problem .internalError⟩

def toFieldError : DomainError → Response Body
  | .unknownTimeZone _ => ⟨422,.problem .unknownTimeZone⟩
  | .invalidDue field reason => ⟨422,.problem (.invalidDue field reason)⟩
  | .recurrenceInvalid reason => ⟨422,.problem (.recurrenceInvalid reason)⟩
  | .recurrenceUnsupported part => ⟨422,.problem (.recurrenceUnsupported part)⟩
  | .recurrenceRequiresDue => ⟨422,.problem .recurrenceRequiresDue⟩
  | .assigneeInvalid => ⟨422,.problem .assigneeInvalid⟩
  | .notFound => notFound
  | .nameRequired _ => ⟨400,.problem .invalidRequest⟩
  | _ => internalError

def toConflictError : DomainError → Response Body
  | .invalidTransition source command => ⟨409,.problem (.invalidTransition source command)⟩
  | .versionConflict currentVersion => ⟨409,.problem (.versionConflict currentVersion)⟩
  | .notFound => notFound
  | _ => internalError

def isConflict : DomainError → Bool
  | .invalidTransition _ _ | .versionConflict _ => true
  | _ => false

def toAssigneeError : DomainError → Response Body
  | .assigneeInvalid => ⟨422,.problem .assigneeInvalid⟩
  | .notFound => notFound
  | _ => internalError

def refusal : Command → DomainError → Response Body
  | .createTask _, e => toFieldError e
  | .updateTask _ _ _, e => if isConflict e then toConflictError e else toFieldError e
  | .completeTask _ _, e | .cancelTask _ _ _, e | .reopenTask _ _, e | .unassignTask _ _, e => toConflictError e
  | .assignTask _ _, e => if isConflict e then toConflictError e else toAssigneeError e

def single (intl : Intl) (status : Nat) (reply : Reply) (now : Instant) : Option (Response Body) := do
  let task ← toTaskBody intl reply.task now
  some ⟨status,.task task⟩

def closed (intl : Intl) (reply : Reply) (now : Instant) : Option (Response Body) := do
  let task ← toTaskBody intl reply.task now
  match reply.successor with
  | none => some ⟨200,.closed task none⟩
  | some next => do
    let successor ← toTaskBody intl next now
    some ⟨200,.closed task (some successor)⟩

def success (intl : Intl) (now : Instant) (reply : Reply) : Command → Option (Response Body)
  | .createTask _ => single intl 201 reply now
  | .updateTask _ _ _ | .reopenTask _ _ | .assignTask _ _ | .unassignTask _ _ => single intl 200 reply now
  | .completeTask _ _ | .cancelTask _ _ _ => closed intl reply now

def routeName : Command → String
  | .createTask _ => "createTask"
  | .updateTask _ _ _ => "updateTask"
  | .completeTask _ _ => "completeTask"
  | .cancelTask _ _ _ => "cancelTask"
  | .reopenTask _ _ => "reopenTask"
  | .assignTask _ _ => "assignTask"
  | .unassignTask _ _ => "unassignTask"

/- A request as the guards let it through; `badDue` is what `parseDue` finds wrong with
its body, and `shape` the JSON text of what the route hashes. -/
structure TaskCall where
  userId : Option Idempotency.UserId
  header : Option String
  familyId : FamilyId
  memberId : FamilyMemberId
  command : Command
  badDue : Option DomainError
  shape : String
  now : Instant
  transactionTime : Instant
  answeredAt : Instant
  deriving DecidableEq

structure Resolved where
  call : TaskCall
  visible : List FamilyMemberId
  deriving DecidableEq

def Resolved.toRequest (r : Resolved) (members : List FamilyMemberId) : Tasks.Request :=
  ⟨r.call.command,r.call.familyId,r.call.memberId,r.visible,members,r.call.now,r.call.transactionTime⟩

structure Household where
  family : Membership.Store
  tasks : Tasks.Store

def handle (intl : Intl) (r : Resolved) (_ : Nat) (h : Household) : Option (Household × Response Body) :=
  match r.call.badDue with
  | some e => some (h, toFieldError e)
  | none =>
    match Tasks.handle intl h.tasks (r.toRequest (familyMembers r.call.familyId h.family)) with
    | (.error _, _) => none
    | (.ok (.error e), next) => some ({ h with tasks := next }, refusal r.call.command e)
    | (.ok (.ok reply), next) =>
      some ({ h with tasks := next }, (success intl r.call.answeredAt reply r.call.command).getD internalError)

def Shown (r : Resolved) (response : Response Body) : Prop :=
  ∀ m ∈ response.body.assignees, m ∈ r.visible ∨ ∃ id, r.call.command = .assignTask id m

section
variable {intl : Intl}

theorem bodySource {task : Task} {now : Instant} {body : TaskBody} (made : toTaskBody intl task now = some body) :
    body.assigneeIds = task.assignees := by
  unfold toTaskBody at made
  obtain ⟨dueAt,-,made⟩ := Option.bind_eq_some_iff.mp made
  obtain ⟨isOverdue,-,made⟩ := Option.bind_eq_some_iff.mp made
  rw [← Option.some.inj made]

theorem successSource {now : Instant} {reply : Reply} {command : Command} {response : Response Body}
    (made : success intl now reply command = some response) : ∀ m ∈ response.body.assignees,
      m ∈ reply.task.assignees ∨ ∃ next, reply.successor = some next ∧ m ∈ next.assignees := by
  have one : ∀ {status}, single intl status reply now = some response → ∀ m ∈ response.body.assignees,
      m ∈ reply.task.assignees ∨ ∃ next, reply.successor = some next ∧ m ∈ next.assignees := by
    intro status made m mem
    obtain ⟨task,first,last⟩ := Option.bind_eq_some_iff.mp made
    rw [← Option.some.inj last] at mem
    exact .inl (by simpa [Body.assignees,Body.tasks,bodySource first] using mem)
  have two : closed intl reply now = some response → ∀ m ∈ response.body.assignees,
      m ∈ reply.task.assignees ∨ ∃ next, reply.successor = some next ∧ m ∈ next.assignees := by
    intro made m mem
    obtain ⟨task,first,made⟩ := Option.bind_eq_some_iff.mp made
    split at made
    · rw [← Option.some.inj made] at mem
      exact .inl (by simpa [Body.assignees,Body.tasks,bodySource first] using mem)
    · rename_i next is
      obtain ⟨successor,second,last⟩ := Option.bind_eq_some_iff.mp made
      rw [← Option.some.inj last] at mem
      have either : m ∈ reply.task.assignees ∨ m ∈ next.assignees := by
        simpa [Body.assignees,Body.tasks,bodySource first,bodySource second] using mem
      exact either.imp id (fun there => ⟨next,is,there⟩)
  cases command
  case completeTask | cancelTask => exact two made
  all_goals exact one made

theorem refusalSource (command : Command) (e : DomainError) : (refusal command e).body.assignees = [] := by
  have field : ∀ e, (toFieldError e).body.assignees = [] := by intro e; cases e <;> rfl
  have conflict : ∀ e, (toConflictError e).body.assignees = [] := by intro e; cases e <;> rfl
  have assignee : ∀ e, (toAssigneeError e).body.assignees = [] := by intro e; cases e <;> rfl
  cases command <;> simp only [refusal]
  case createTask => exact field e
  case updateTask => split <;> simp only [field,conflict]
  case assignTask => split <;> simp only [assignee,conflict]
  all_goals exact conflict e

theorem handleShown {r : Resolved} {n : Nat} {h h' : Household} {response : Response Body}
    (existing : ∀ params, r.call.command ≠ .createTask params) (ok : handle intl r n h = some (h',response)) :
    Shown r response := by
  intro m mem
  unfold handle at ok
  split at ok
  · rename_i e _
    obtain ⟨-,rfl⟩ := Prod.mk.inj (Option.some.inj ok)
    have none_ := refusalSource (.createTask ⟨"",none,none,none,none,none,[]⟩) e
    simp only [refusal] at none_
    rw [none_] at mem
    cases mem
  · split at ok
    · cases ok
    · obtain ⟨-,rfl⟩ := Prod.mk.inj (Option.some.inj ok)
      rw [refusalSource] at mem
      cases mem
    · rename_i reply next handled
      obtain ⟨-,rfl⟩ := Prod.mk.inj (Option.some.inj ok)
      cases made : success intl r.call.answeredAt reply r.call.command with
      | none =>
        rw [made] at mem
        cases mem
      | some response =>
        rw [made] at mem
        exact Tasks.handleAssignees (r := r.toRequest _) existing (by rw [handled]) m (successSource made m mem)

end
end FamilyPlatform.TaskApi
