import Mathlib.Data.List.Dedup
import FamilyPlatform.Lib.UnitOfWork
import FamilyPlatform.Tasks.Works

/-! The commands statement by statement, with the events and the audit rows of the same
transaction, and any statement of it may be lost with the database. A command that does not
succeed leaves the tasks, the assignments and the outbox; a head that is closed has handed on. -/
namespace FamilyPlatform.Tasks.Transactions
open ZonedTime UnitOfWork

abbrev UserId := Nat

/- Identifiers and values of enumerations only. -/
inductive TaskEvent where
  | taskCreated (familyId : FamilyId) (taskId : TaskId) (seriesId : Option TaskSeriesId)
      (predecessorId : Option TaskId) (dueKind : DueKind)
  | taskAssigned (familyId : FamilyId) (taskId : TaskId) (memberId : FamilyMemberId)
  | taskUpdated (familyId : FamilyId) (taskId : TaskId) (changed : List ChangedFieldGroup)
  | taskCompleted (familyId : FamilyId) (taskId : TaskId) (completedByMemberId : FamilyMemberId)
  | taskCancelled (familyId : FamilyId) (taskId : TaskId) (scope : Scope)
  deriving DecidableEq

inductive AuditResult where
  | granted | denied
  deriving DecidableEq, Repr

structure AuditEntry where
  actorUserId : Option UserId
  actorMemberId : FamilyMemberId
  familyId : FamilyId
  subjectType : String
  subjectId : FamilyMemberId
  action : String
  purpose : String
  result : AuditResult
  reason : Option String
  deriving DecidableEq, Repr

structure Database where
  tasks : Store
  outbox : List TaskEvent
  audit : List AuditEntry
  deriving DecidableEq

/- What leaves a body other than by returning. -/
inductive Raised where
  | rollbackWithError (domainError : DomainError)
  | thrown (error : Thrown)
  | databaseLost
  deriving DecidableEq, Repr

abbrev Outcome := Except Raised (Result Reply) × Database

def catchRollback : Outcome → Outcome
  | (.error (.rollbackWithError e), db) => (.ok (.error e), db)
  | other => other

def orRollback {α : Type} : Result α → Body Database Raised α
  | .ok value => pure value
  | .error e => throw (.rollbackWithError e)

def orRaise {α : Type} : Option α → Body Database Raised α
  | some value => pure value
  | none => throw (.thrown .rangeError)

def createdEvent (familyId : FamilyId) (t : Task) : TaskEvent :=
  .taskCreated familyId t.id t.seriesId t.predecessorId ((t.due.map Due.kind).getD .none)

def deniedEntry (userId : Option UserId) (r : Request) (taskId : TaskId) (child : FamilyMemberId) : AuditEntry :=
  { actorUserId := userId, actorMemberId := r.memberId, familyId := r.familyId, subjectType := "family_member",
    subjectId := child, action := "task_assignment.read", purpose := "task change of task " ++ toString taskId,
    result := .denied,
    reason := some "task has a child assignee the reader holds no active guardianship for (FR-014)" }

section
variable (intl : Intl) (outage : Nat → Bool) (userId : Option UserId)

def lost (n : Nat) : Option Raised := if outage n then some .databaseLost else none

def onTasks {α : Type} (work : Store → Except Thrown (α × Store)) : Body Database Raised α :=
  statement (lost outage) (fun db => match work db.tasks with
    | .ok (value, tasks) => .ok (value, { db with tasks := tasks })
    | .error e => .error (.thrown e))

def write (work : Store → Except Thrown Store) : Body Database Raised Unit :=
  onTasks outage (fun s => (work s).map (fun next => ((), next)))

def appendEvent (event : TaskEvent) : Body Database Raised Unit :=
  statement (lost outage) (fun db => .ok ((), { db with outbox := db.outbox ++ [event] }))

def appendAudit (entry : AuditEntry) : Body Database Raised Unit :=
  statement (lost outage) (fun db => .ok ((), { db with audit := db.audit ++ [entry] }))

def setFamily : Body Database Raised Unit := statement (lost outage) (fun db => .ok ((), db))

def withTasksFamilyContext (work : Body Database Raised (Result Reply)) (db : Database) : Outcome :=
  transaction (do setFamily outage; work) db

def lockById (familyId : FamilyId) (taskId : TaskId) : Body Database Raised (Option Task) :=
  onTasks outage (fun s => (s.lockById familyId taskId).map (fun found => (found, s)))

def addAssignments (r : Request) (taskId : TaskId) (members : List FamilyMemberId) : Body Database Raised Unit :=
  if members = [] then pure ()
  else write outage (fun s => s.addAssignments r.familyMembers r.transactionTime taskId members)

/- Of a member of another family, an error; whatever else is raised goes on. -/
def assigneeInvalid : Raised → Body Database Raised Unit
  | .thrown .assigneeNotInFamily => throw (.rollbackWithError .assigneeInvalid)
  | e => throw e

def seriesInvariantViolated : Raised → Body Database Raised Unit
  | .thrown (.uniqueViolation constraint) => throw (.thrown (.seriesInvariantViolated constraint))
  | e => throw e

def handOverHead (familyId : FamilyId) (predecessor successor : Task) : Body Database Raised Unit :=
  if predecessor.isSeriesHead then throw (.thrown .stillFlaggedHead)
  else tryCatch (do
    write outage (fun s => s.save intl predecessor)
    write outage (fun s => s.insert intl familyId successor)) seriesInvariantViolated

def lockVisibleTask (r : Request) (taskId : TaskId) (expectedVersion : Option Nat) :
    Body Database Raised (Result Task) := do
  match ← lockById outage r.familyId taskId with
  | none => return .error .notFound
  | some task =>
    if task.assignees.any (· ∉ r.visible) then
      (task.assignees.filter (· ∉ r.visible)).forM (fun child => appendAudit outage (deniedEntry userId r task.id child))
      return .error .notFound
    else if expectedVersion.any (· ≠ task.version) then return .error (.versionConflict task.version)
    else return .ok task

def whenLocked (r : Request) (taskId : TaskId) (expectedVersion : Option Nat)
    (work : Task → Body Database Raised (Result Reply)) : Body Database Raised (Result Reply) := do
  match ← lockVisibleTask outage userId r taskId expectedVersion with
  | .error e => return .error e
  | .ok task => work task

def createTask (r : Request) (params : NewTask) (db : Database) : Outcome :=
  match Task.create params db.tasks.issued r.familyId db.tasks.issued r.memberId with
  | .error e => (.ok (.error e), db)
  | .ok task => catchRollback (withTasksFamilyContext outage (do
      write outage (fun s => s.insert intl r.familyId task)
      tryCatch (addAssignments outage r task.id task.assignees) assigneeInvalid
      appendEvent outage (createdEvent r.familyId task)
      task.assignees.forM (fun m => appendEvent outage (.taskAssigned r.familyId task.id m))
      return .ok ⟨task,none⟩) db)

def updateLocked (r : Request) (patch : TaskPatch) (newSeriesId : TaskSeriesId) (task : Task) :
    Body Database Raised (Result Reply) := do
  match ← orRaise (task.update intl patch newSeriesId) with
  | .error e => return .error e
  | .ok (task, changed) =>
    if changed = [] then return .ok ⟨task,none⟩
    else
      write outage (fun s => s.save intl task)
      appendEvent outage (.taskUpdated r.familyId task.id changed)
      return .ok ⟨task,none⟩

def spawnSuccessor (r : Request) (successorId : TaskId) (head : Task) : Body Database Raised Reply := do
  match ← orRollback (← orRaise (successorDueOf intl head r.now)) with
  | none => return ⟨head,none⟩
  | some due =>
    let successor := Task.successorOf successorId head due r.memberId
    handOverHead intl outage r.familyId head.relinquishHead successor
    addAssignments outage r successor.id successor.assignees
    appendEvent outage (createdEvent r.familyId successor)
    return ⟨head.relinquishHead,some successor⟩

def completeLocked (r : Request) (successorId : TaskId) (task : Task) : Body Database Raised (Result Reply) :=
  match task.complete r.memberId r.now with
  | .error e => return .error e
  | .ok task => do
    write outage (fun s => s.save intl task)
    appendEvent outage (.taskCompleted r.familyId task.id r.memberId)
    return .ok (← spawnSuccessor intl outage r successorId task)

def cancelLocked (r : Request) (scope : Scope) (successorId : TaskId) (task : Task) :
    Body Database Raised (Result Reply) :=
  match task.cancel r.memberId r.now with
  | .error e => return .error e
  | .ok task => do
    write outage (fun s => s.save intl task)
    appendEvent outage (.taskCancelled r.familyId task.id scope)
    if scope = .series then return .ok ⟨task,none⟩
    else return .ok (← spawnSuccessor intl outage r successorId task)

def reopenLocked (r : Request) (task : Task) : Body Database Raised (Result Reply) :=
  match task.reopen with
  | .error e => return .error e
  | .ok task => do
    write outage (fun s => s.save intl task)
    appendEvent outage (.taskUpdated r.familyId task.id [.status])
    return .ok ⟨task,none⟩

def assignLocked (r : Request) (assigneeId : FamilyMemberId) (task : Task) : Body Database Raised (Result Reply) :=
  match task.assign assigneeId with
  | .error e => return .error e
  | .ok none => return .ok ⟨task,none⟩
  | .ok (some assigned) => do
    tryCatch (addAssignments outage r task.id [assigneeId]) assigneeInvalid
    write outage (fun s => s.save intl assigned)
    appendEvent outage (.taskAssigned r.familyId task.id assigneeId)
    return .ok ⟨assigned,none⟩

def unassignLocked (r : Request) (assigneeId : FamilyMemberId) (task : Task) : Body Database Raised (Result Reply) :=
  match task.unassign assigneeId with
  | .error e => return .error e
  | .ok none => return .ok ⟨task,none⟩
  | .ok (some unassigned) => do
    write outage (fun s => .ok (s.removeAssignment task.id assigneeId))
    write outage (fun s => s.save intl unassigned)
    appendEvent outage (.taskUpdated r.familyId task.id [.assignees])
    return .ok ⟨unassigned,none⟩

def updateTask (r : Request) (taskId : TaskId) (expectedVersion : Nat) (patch : TaskPatch) (db : Database) : Outcome :=
  withTasksFamilyContext outage (whenLocked outage userId r taskId (some expectedVersion)
    (updateLocked intl outage r patch db.tasks.issued)) db

def completeTask (r : Request) (taskId : TaskId) (expectedVersion : Nat) (db : Database) : Outcome :=
  catchRollback (withTasksFamilyContext outage (whenLocked outage userId r taskId (some expectedVersion)
    (completeLocked intl outage r db.tasks.issued)) db)

def cancelTask (r : Request) (taskId : TaskId) (expectedVersion : Nat) (scope : Scope) (db : Database) : Outcome :=
  catchRollback (withTasksFamilyContext outage (whenLocked outage userId r taskId (some expectedVersion)
    (cancelLocked intl outage r scope db.tasks.issued)) db)

def reopenTask (r : Request) (taskId : TaskId) (expectedVersion : Nat) (db : Database) : Outcome :=
  withTasksFamilyContext outage (whenLocked outage userId r taskId (some expectedVersion)
    (reopenLocked intl outage r)) db

def assignTask (r : Request) (taskId : TaskId) (assigneeId : FamilyMemberId) (db : Database) : Outcome :=
  catchRollback (withTasksFamilyContext outage (whenLocked outage userId r taskId none
    (assignLocked intl outage r assigneeId)) db)

def unassignTask (r : Request) (taskId : TaskId) (assigneeId : FamilyMemberId) (db : Database) : Outcome :=
  withTasksFamilyContext outage (whenLocked outage userId r taskId none (unassignLocked intl outage r assigneeId)) db

def execute (r : Request) (db : Database) : Outcome :=
  match r.command with
  | .createTask params => createTask intl outage r params db
  | .updateTask taskId version patch => updateTask intl outage userId r taskId version patch db
  | .completeTask taskId version => completeTask intl outage userId r taskId version db
  | .cancelTask taskId version scope => cancelTask intl outage userId r taskId version scope db
  | .reopenTask taskId version => reopenTask intl outage userId r taskId version db
  | .assignTask taskId assignee => assignTask intl outage userId r taskId assignee db
  | .unassignTask taskId assignee => unassignTask intl outage userId r taskId assignee db

end

structure Refused (db next : Database) : Prop where
  tasks : next.tasks = db.tasks
  outbox : next.outbox = db.outbox
  audit : ∃ denials, next.audit = db.audit ++ denials ∧ ∀ entry ∈ denials, entry.result = .denied

theorem Refused.refl (db : Database) : Refused db db := ⟨rfl,rfl,[],by simp,by simp⟩

def Published (r : Request) (reply : Reply) (events : List TaskEvent) : Prop :=
  let id := reply.task.id
  let spawned := (reply.successor.map (createdEvent r.familyId)).toList
  match r.command with
  | .createTask _ =>
    events = createdEvent r.familyId reply.task :: reply.task.assignees.map (TaskEvent.taskAssigned r.familyId id)
  | .updateTask _ _ _ => events = [] ∨ ∃ changed, changed ≠ [] ∧ events = [.taskUpdated r.familyId id changed]
  | .completeTask _ _ => events = .taskCompleted r.familyId id r.memberId :: spawned
  | .cancelTask _ _ scope => events = .taskCancelled r.familyId id scope :: spawned
  | .reopenTask _ _ => events = [.taskUpdated r.familyId id [.status]]
  | .assignTask _ assignee => events = [] ∨ events = [.taskAssigned r.familyId id assignee]
  | .unassignTask _ _ => events = [] ∨ events = [.taskUpdated r.familyId id [.assignees]]

def Done (db : Database) (answer : Answer) (published : Reply → List TaskEvent → Prop) : Result Reply → Database → Prop
  | .error e, next => answer = .ok (.error e) ∧ Refused db next
  | .ok reply, next => answer = .ok (.ok (reply,next.tasks)) ∧ next.audit = db.audit ∧
      ∃ events, next.outbox = db.outbox ++ events ∧ published reply events

section
variable {intl : Intl} {outage : Nat → Bool} {userId : Option UserId} {db : Database} {n : Nat} {r : Request}
  {α : Type} {post : α → Database → Prop} {told : Unit → Database → Prop}

theorem returnsOnTasks {work : Store → Except Thrown (α × Store)}
    (holds : ∀ value tasks, work db.tasks = .ok (value,tasks) → post value { db with tasks := tasks }) :
    Returns (onTasks outage work) ⟨db,n⟩ post := by
  refine returnsStatement (fun value next done => ?_)
  simp only at done
  split at done
  · rename_i worked
    cases done
    exact holds _ _ worked
  · cases done

theorem returnsWrite {work : Store → Except Thrown Store}
    (holds : ∀ tasks, work db.tasks = .ok tasks → told () { db with tasks := tasks }) :
    Returns (write outage work) ⟨db,n⟩ told := by
  refine returnsOnTasks (fun value tasks worked => ?_)
  cases done : work db.tasks with
  | error e =>
    rw [done] at worked
    cases worked
  | ok next =>
    rw [done] at worked
    cases worked
    exact holds _ done

theorem returnsEvent {event : TaskEvent} (holds : told () { db with outbox := db.outbox ++ [event] }) :
    Returns (appendEvent outage event) ⟨db,n⟩ told := by
  refine returnsStatement (fun value next done => ?_)
  cases done
  exact holds

theorem returnsAudit {entry : AuditEntry} (holds : told () { db with audit := db.audit ++ [entry] }) :
    Returns (appendAudit outage entry) ⟨db,n⟩ told := by
  refine returnsStatement (fun value next done => ?_)
  cases done
  exact holds

theorem returnsEvents {make : FamilyMemberId → TaskEvent} (members : List FamilyMemberId)
    (holds : told () { db with outbox := db.outbox ++ members.map make }) :
    Returns (members.forM (fun m => appendEvent outage (make m))) ⟨db,n⟩ told := by
  induction members generalizing db n with
  | nil => exact returnsPure (by simpa using holds)
  | cons m rest ih =>
    refine returnsBind (returnsEvent (fun n => ih ?_))
    simpa using holds

theorem returnsDenials {make : FamilyMemberId → AuditEntry} (members : List FamilyMemberId)
    (holds : told () { db with audit := db.audit ++ members.map make }) :
    Returns (members.forM (fun m => appendAudit outage (make m))) ⟨db,n⟩ told := by
  induction members generalizing db n with
  | nil => exact returnsPure (by simpa using holds)
  | cons m rest ih =>
    refine returnsBind (returnsAudit (fun n => ih ?_))
    simpa using holds

theorem returnsOrRaise {x : Option α} (holds : ∀ value, x = some value → post value db) :
    Returns (orRaise x) ⟨db,n⟩ post := by
  cases x with
  | none => exact returnsRaise
  | some value => exact returnsPure (holds value rfl)

theorem returnsOrRollback {x : Result α} (holds : ∀ value, x = .ok value → post value db) :
    Returns (orRollback x) ⟨db,n⟩ post := by
  cases x with
  | error e => exact returnsRaise
  | ok value => exact returnsPure (holds value rfl)

theorem returnsAssignments {taskId : TaskId} {members : List FamilyMemberId}
    (holds : ∀ tasks, db.tasks.addAssignments r.familyMembers r.transactionTime taskId members = .ok tasks →
      told () { db with tasks := tasks }) : Returns (addAssignments outage r taskId members) ⟨db,n⟩ told := by
  unfold addAssignments
  split
  · rename_i none_
    subst none_
    exact returnsPure (holds db.tasks (by simp [Store.addAssignments,List.dedup,List.pwFilter_nil]))
  · exact returnsWrite holds

theorem returnsInvalid {body : Body Database Raised Unit} (holds : Returns body ⟨db,n⟩ told) :
    Returns (tryCatch body assigneeInvalid) ⟨db,n⟩ told := by
  refine returnsCaught holds (fun e later => ?_)
  unfold assigneeInvalid
  split <;> exact returnsRaise

theorem returnsHandOver {familyId : FamilyId} {predecessor successor : Task}
    (holds : ∀ tasks, db.tasks.handOverHead intl familyId predecessor successor = .ok tasks →
      told () { db with tasks := tasks }) :
    Returns (handOverHead intl outage familyId predecessor successor) ⟨db,n⟩ told := by
  unfold handOverHead
  unfold Store.handOverHead at holds
  split
  · exact returnsRaise
  · rename_i flagged
    rw [if_neg flagged] at holds
    refine returnsCaught (returnsBind (returnsWrite (fun saved kept n => returnsWrite (fun tasks inserted => ?_))))
      (fun e later => ?_)
    · exact holds tasks (by simp only [kept,bind,Except.bind]; rw [inserted])
    · unfold seriesInvariantViolated
      split <;> exact returnsRaise

variable {t : Task} {answer : Answer} {published : Reply → List TaskEvent → Prop}

theorem returnsRefused {e : DomainError} (is : answer = .ok (.error e)) :
    Returns (pure (.error e) : Body Database Raised (Result Reply)) ⟨db,n⟩ (Done db answer published) :=
  returnsPure ⟨is,.refl db⟩

theorem lockedDone {taskId : TaskId} {version : Option Nat} {work : Task → Body Database Raised (Result Reply)}
    {locked : Task → Answer} (holds : ∀ task n, task.id = taskId →
      Returns (work task) ⟨db,n⟩ (Done db (locked task) published)) :
    Returns (whenLocked outage userId r taskId version work) ⟨db,n⟩
      (Done db (Tasks.whenLocked db.tasks r taskId version locked) published) := by
  unfold whenLocked lockVisibleTask lockById
  simp only [bind_assoc]
  refine returnsBind (returnsOnTasks (fun found tasks looked n => ?_))
  have view : db.tasks.lockById r.familyId taskId = .ok found ∧ tasks = db.tasks := by
    cases read : db.tasks.lockById r.familyId taskId with
    | error e => rw [read] at looked; cases looked
    | ok task => rw [read] at looked; cases looked; exact ⟨rfl,rfl⟩
  obtain ⟨view,rfl⟩ := view
  cases found with
  | none =>
    refine returnsBind (returnsPure (fun n => returnsRefused ?_))
    simp only [Tasks.whenLocked,Tasks.lockVisibleTask,view]
    rfl
  | some task =>
    simp only
    split
    · rename_i hidden
      refine returnsBind (returnsBind (returnsDenials _ (fun n => returnsPure (fun n => returnsPure ⟨?_,rfl,rfl,_,rfl,?_⟩))))
      · simp only [Tasks.whenLocked,Tasks.lockVisibleTask,view,bind,Except.bind,if_pos hidden]
        rfl
      · intro entry mem
        obtain ⟨child,-,rfl⟩ := List.mem_map.mp mem
        rfl
    · rename_i visible
      split
      · rename_i stale
        refine returnsBind (returnsPure (fun n => returnsRefused ?_))
        simp only [Tasks.whenLocked,Tasks.lockVisibleTask,view,bind,Except.bind,if_neg visible,if_pos stale]
        rfl
      · rename_i current
        refine returnsBind (returnsPure (fun n => ?_))
        have is : Tasks.whenLocked db.tasks r taskId version locked = locked task := by
          simp only [Tasks.whenLocked,Tasks.lockVisibleTask,view,bind,Except.bind,if_neg visible,if_neg current]
          rfl
        rw [is]
        obtain ⟨row,-,id,-,loaded⟩ := Store.lockSource view
        exact holds task n (loaded.id.trans id)

theorem returnsSaved {event : TaskEvent} (is : ∀ saved, db.tasks.save intl t = .ok saved →
    answer = .ok (.ok (⟨t,none⟩,saved))) (told : published ⟨t,none⟩ [event]) :
    Returns (do
      write outage (fun s => s.save intl t)
      appendEvent outage event
      return .ok ⟨t,none⟩) ⟨db,n⟩ (Done db answer published) :=
  returnsBind (returnsWrite (fun saved kept _ => returnsBind (returnsEvent (fun _ =>
    returnsPure ⟨is saved kept,rfl,_,rfl,told⟩))))

theorem returnsUnchanged (is : answer = .ok (.ok (⟨t,none⟩,db.tasks))) (told : published ⟨t,none⟩ []) :
    Returns (pure (.ok ⟨t,none⟩) : Body Database Raised (Result Reply)) ⟨db,n⟩ (Done db answer published) :=
  returnsPure ⟨is,rfl,[],by simp,told⟩

theorem updateDone {id : TaskId} {version : Nat} {patch : TaskPatch} (command : r.command = .updateTask id version patch) :
    Returns (updateLocked intl outage r patch db.tasks.issued t) ⟨db,n⟩
      (Done db (Tasks.updateLocked intl db.tasks patch t) (Published r)) := by
  refine returnsBind (returnsOrRaise (fun edited updated n => ?_))
  unfold Tasks.updateLocked
  rw [updated]
  cases edited with
  | error e => exact returnsRefused rfl
  | ok edit =>
    obtain ⟨task,changed⟩ := edit
    simp only [orThrow,bind,Except.bind]
    split
    · exact returnsUnchanged rfl (by simp only [Published,command,true_or])
    · rename_i some_
      refine returnsSaved (fun saved kept => ?_) (by simpa only [Published,command] using .inr ⟨changed,some_,rfl⟩)
      simp only [saveAnd,kept]
      rfl

theorem spawnDone {event : TaskEvent} {saved : Store} (issued : saved.issued = db.tasks.issued)
    (told : ∀ reply, reply.task.id = t.id →
      published reply (event :: (reply.successor.map (createdEvent r.familyId)).toList)) :
    Returns (do return .ok (← spawnSuccessor intl outage r db.tasks.issued t))
      ⟨{ db with tasks := saved, outbox := db.outbox ++ [event] },n⟩
      (Done db (Tasks.spawnSuccessor intl saved r t) published) := by
  unfold spawnSuccessor
  simp only [bind_assoc]
  refine returnsBind (returnsOrRaise (fun computed found n => returnsBind (returnsOrRollback (fun due ok n => ?_))))
  subst ok
  cases due with
  | none =>
    refine returnsBind (returnsPure (fun n => returnsPure ⟨?_,rfl,_,rfl,told _ rfl⟩))
    unfold Tasks.spawnSuccessor
    rw [found]
    rfl
  | some due =>
    simp only [bind_assoc]
    refine returnsBind (returnsHandOver (fun handed ok n => returnsBind (returnsAssignments (fun last added n =>
      returnsBind (returnsEvent (fun n => returnsBind (returnsPure (fun n => returnsPure ⟨?_,rfl,_,?_,told _ rfl⟩))))))))
    · unfold Tasks.spawnSuccessor
      rw [found,issued]
      simp only [orThrow,bind,Except.bind]
      simp only at ok added
      rw [ok]
      simp only
      rw [added]
      rfl
    · simp

theorem completeDone {id : TaskId} {version : Nat} (command : r.command = .completeTask id version) :
    Returns (completeLocked intl outage r db.tasks.issued t) ⟨db,n⟩
      (Done db (Tasks.completeLocked intl db.tasks r t) (Published r)) := by
  unfold completeLocked Tasks.completeLocked
  cases closed : t.complete r.memberId r.now with
  | error e => exact returnsRefused rfl
  | ok task =>
    refine returnsBind (returnsWrite (fun saved kept n => returnsBind (returnsEvent (fun n => ?_))))
    have is : saveAnd intl db.tasks (.ok task) (fun saved => Tasks.spawnSuccessor intl saved r) =
        Tasks.spawnSuccessor intl saved r task := by
      simp only [saveAnd,kept]
      rfl
    rw [is]
    exact spawnDone (Store.saveSource kept).2.2.2 (fun reply same => by simp only [Published,command,same])

theorem cancelDone {id : TaskId} {version : Nat} {scope : Scope} (command : r.command = .cancelTask id version scope) :
    Returns (cancelLocked intl outage r scope db.tasks.issued t) ⟨db,n⟩
      (Done db (Tasks.cancelLocked intl db.tasks r scope t) (Published r)) := by
  unfold cancelLocked Tasks.cancelLocked
  cases closed : t.cancel r.memberId r.now with
  | error e => exact returnsRefused rfl
  | ok task =>
    refine returnsBind (returnsWrite (fun saved kept n => returnsBind (returnsEvent (fun n => ?_))))
    simp only [saveAnd,kept]
    by_cases series : scope = .series
    · simp only [if_pos series]
      exact returnsPure ⟨rfl,rfl,_,rfl,by simp [Published,command]⟩
    · simp only [if_neg series]
      exact spawnDone (Store.saveSource kept).2.2.2 (fun reply same => by simp only [Published,command,same])

theorem reopenDone {id : TaskId} {version : Nat} (command : r.command = .reopenTask id version) :
    Returns (reopenLocked intl outage r t) ⟨db,n⟩ (Done db (Tasks.reopenLocked intl db.tasks t) (Published r)) := by
  unfold reopenLocked Tasks.reopenLocked
  cases opened : t.reopen with
  | error e => exact returnsRefused rfl
  | ok task =>
    refine returnsSaved (fun saved kept => ?_) (by simp only [Published,command])
    simp only [saveAnd,kept]
    rfl

theorem assignDone {assignee : FamilyMemberId} (command : r.command = .assignTask t.id assignee) :
    Returns (assignLocked intl outage r assignee t) ⟨db,n⟩
      (Done db (Tasks.assignLocked intl db.tasks r t.id assignee t) (Published r)) := by
  unfold assignLocked Tasks.assignLocked
  cases moved : t.assign assignee with
  | error e => exact returnsRefused rfl
  | ok assigned =>
    cases assigned with
    | none => exact returnsUnchanged rfl (by simp only [Published,command,true_or])
    | some assigned =>
      obtain ⟨-,rfl⟩ := Task.assignSource moved
      refine returnsBind (returnsInvalid (returnsAssignments (fun added ok n => returnsBind (returnsWrite (fun saved kept n =>
        returnsBind (returnsEvent (fun n => returnsPure ⟨?_,rfl,_,rfl,?_⟩)))))))
      · simp only [ok,saveAnd,kept]
        rfl
      · simp only [Published,command]
        exact .inr rfl

theorem unassignDone {assignee : FamilyMemberId} (command : r.command = .unassignTask t.id assignee) :
    Returns (unassignLocked intl outage r assignee t) ⟨db,n⟩
      (Done db (Tasks.unassignLocked intl db.tasks t.id assignee t) (Published r)) := by
  unfold unassignLocked Tasks.unassignLocked
  cases moved : t.unassign assignee with
  | error e => exact returnsRefused rfl
  | ok unassigned =>
    cases unassigned with
    | none => exact returnsUnchanged rfl (by simp only [Published,command,true_or])
    | some unassigned =>
      obtain ⟨-,rfl⟩ := Task.unassignSource moved
      refine returnsBind (returnsWrite (fun removed ok n => returnsBind (returnsWrite (fun saved kept n =>
        returnsBind (returnsEvent (fun n => returnsPure ⟨?_,rfl,_,rfl,?_⟩))))))
      · cases ok
        simp only [saveAnd,kept]
        rfl
      · simp only [Published,command]
        exact .inr rfl

def Settled (db : Database) (answer : Answer) (published : Reply → List TaskEvent → Prop) (done : Outcome) : Prop :=
  (∃ result, done.1 = .ok result ∧ Done db answer published result done.2) ∨
  ((∀ reply, done.1 ≠ .ok (.ok reply)) ∧ done.2 = db)

theorem contextSettled {work : Body Database Raised (Result Reply)}
    (holds : ∀ n, Returns work ⟨db,n⟩ (Done db answer published)) :
    Settled db answer published (withTasksFamilyContext outage work db) := by
  have body : Returns (do setFamily outage; work) ⟨db,0⟩ (Done db answer published) :=
    returnsBind (returnsStatement (fun value next done n => by cases done; exact holds n))
  rcases transactionKeeps body with kept | ⟨e,raised,same⟩
  · exact .inl kept
  · refine .inr ⟨fun reply is => ?_,same⟩
    rw [withTasksFamilyContext,raised] at is
    cases is

theorem caughtSettled {done : Outcome} (settled : Settled db answer published done) :
    Settled db answer published (catchRollback done) := by
  obtain ⟨outcome,next⟩ := done
  unfold catchRollback
  split
  · rename_i is
    cases is
    rcases settled with ⟨_,is,-⟩ | ⟨-,same⟩
    · cases is
    · exact .inr ⟨(fun reply is => by cases is),same⟩
  · exact settled

theorem createSettled {params : NewTask} (command : r.command = .createTask params) :
    Settled db (Tasks.createTask intl db.tasks r params) (Published r) (createTask intl outage r params db) := by
  unfold createTask Tasks.createTask
  cases made : Task.create params db.tasks.issued r.familyId db.tasks.issued r.memberId with
  | error e => exact .inl ⟨_,rfl,rfl,.refl db⟩
  | ok task =>
    refine caughtSettled (contextSettled (fun n => ?_))
    refine returnsBind (returnsWrite (fun inserted placed n => ?_))
    refine returnsBind (returnsInvalid (returnsAssignments (fun last added n => ?_)))
    refine returnsBind (returnsEvent (fun n => returnsBind (returnsEvents task.assignees (fun n => returnsPure
      ⟨?_,rfl,createdEvent r.familyId task :: task.assignees.map (.taskAssigned r.familyId task.id),?_,?_⟩))))
    · simp only at added
      simp only [placed,bind,Except.bind,added]
      rfl
    · simp
    · simp only [Published,command]

theorem executeSettled : Settled db (perform intl db.tasks r) (Published r) (execute intl outage userId r db) := by
  unfold execute perform
  cases command : r.command with
  | createTask params => exact createSettled command
  | updateTask id version patch =>
    exact contextSettled (fun n => lockedDone (fun task n _ => updateDone command))
  | completeTask id version =>
    exact caughtSettled (contextSettled (fun n => lockedDone (fun task n _ => completeDone command)))
  | cancelTask id version scope =>
    exact caughtSettled (contextSettled (fun n => lockedDone (fun task n _ => cancelDone command)))
  | reopenTask id version => exact contextSettled (fun n => lockedDone (fun task n _ => reopenDone command))
  | assignTask id assignee =>
    exact caughtSettled (contextSettled (fun n => lockedDone (fun task n same => by
      subst same
      exact assignDone command)))
  | unassignTask id assignee =>
    exact contextSettled (fun n => lockedDone (fun task n same => by
      subst same
      exact unassignDone command))

end

def closing (r : Request) : Option (TaskId × TaskState × TaskEvent) :=
  match r.command with
  | .completeTask id _ => some (id,.completed r.now (some r.memberId),.taskCompleted r.familyId id r.memberId)
  | .cancelTask id _ .instance_ =>
    some (id,.cancelled r.now (some r.memberId),.taskCancelled r.familyId id .instance_)
  | _ => none

def Stored (intl : Intl) (s : Store) (familyId : FamilyId) (t : Task) : Prop :=
  ∃ row, s.tasks.find t.id = some row ∧ columns intl t = .ok row.toTaskColumns ∧ row.familyId = familyId ∧
    row.predecessorId = t.predecessorId ∧ row.createdByMemberId = t.createdByMemberId

structure Succeeds (intl : Intl) (db : Database) (familyId : FamilyId) (head successor : Task) (next : Database) : Prop where
  stored : Stored intl next.tasks familyId successor
  fresh : db.tasks.tasks.find successor.id = none
  predecessor : successor.predecessorId = some head.id
  series : successor.seriesId = head.seriesId
  flagged : successor.isSeriesHead = true
  open_ : successor.state = .opened
  everyone : ∀ m ∈ head.assignees, ∃ a ∈ next.tasks.assignments, a.taskId = successor.id ∧ a.memberId = m
  nobodyElse : ∃ added, next.tasks.assignments = db.tasks.assignments ++ added ∧
    ∀ a ∈ added, a.taskId = successor.id ∧ a.memberId ∈ head.assignees

/- A closed head stays the head if its rule has no more dates, and hands on otherwise. -/
def HandedOn (intl : Intl) (r : Request) (head : Task) (state : TaskState) (event : TaskEvent) (db next : Database) : Prop :=
  let closed := { head with state := state, version := head.version + 1 }
  match successorDueOf intl closed r.now with
  | some (.ok none) => Stored intl next.tasks r.familyId closed ∧ next.outbox = db.outbox ++ [event]
  | some (.ok (some due)) =>
    Stored intl next.tasks r.familyId { closed with isSeriesHead := false } ∧
    ∃ successor, successor.due = some due ∧ Succeeds intl db r.familyId head successor next ∧
      next.outbox = db.outbox ++ [event,createdEvent r.familyId successor]
  | _ => False

section
variable {intl : Intl} {s next : Store} {r : Request} {t : Task} {reply : Reply}

theorem spawnSource (ok : Tasks.spawnSuccessor intl s r t = .ok (.ok (reply,next))) :
    (successorDueOf intl t r.now = some (.ok none) ∧ next = s ∧ reply.successor = none) ∨
    ∃ due handed, successorDueOf intl t r.now = some (.ok (some due)) ∧
      s.handOverHead intl r.familyId t.relinquishHead (Task.successorOf s.issued t due r.memberId) = .ok handed ∧
      handed.addAssignments r.familyMembers r.transactionTime s.issued t.assignees = .ok next ∧
      reply = ⟨t.relinquishHead,some (Task.successorOf s.issued t due r.memberId)⟩ := by
  unfold Tasks.spawnSuccessor at ok
  obtain ⟨due,computed,ok⟩ := bindSource ok
  have found := orThrowSource computed
  split at ok
  · cases ok
  · cases ok
    exact .inl ⟨found,rfl,rfl⟩
  · obtain ⟨handed,passed,ok⟩ := bindSource ok
    obtain ⟨last,added,ok⟩ := bindSource ok
    cases ok
    exact .inr ⟨_,handed,found,passed,added,rfl⟩

theorem closingSource {id : TaskId} {state : TaskState} {event : TaskEvent} (closes : closing r = some (id,state,event))
    (ok : perform intl s r = .ok (.ok (reply,next))) :
    ∃ head closed saved, s.lockById r.familyId id = .ok (some head) ∧
      closed = { head with state := state, version := head.version + 1 } ∧ Moved intl r s.issued head closed ∧
      s.save intl closed = .ok saved ∧ Tasks.spawnSuccessor intl saved r closed = .ok (.ok (reply,next)) := by
  rw [performRead] at ok
  unfold closing at closes
  split at closes <;> cases closes
  all_goals
    rename_i version command
    simp only [performLocked,command,readLocked,Work.taskId,Work.familyId,Command.taskId] at ok
    obtain ⟨found,view,ok⟩ := bindSource ok
    split at ok
    · cases ok
    rename_i head seen
    obtain rfl := visibleSource seen
    simp only [lockedWork,command,Tasks.completeLocked,Tasks.cancelLocked] at ok
    obtain ⟨closed,saved,moved,kept,ok⟩ := saveAndSource ok
  · exact ⟨head,closed,saved,view,(Task.completeSource moved).2,.completed command moved,kept,ok⟩
  · exact ⟨head,closed,saved,view,(Task.cancelSource moved).2,.cancelled command moved,kept,ok⟩

theorem addedSource {familyMembers : List FamilyMemberId} {time : Instant} {taskId : TaskId}
    {members : List FamilyMemberId} (ok : s.addAssignments familyMembers time taskId members = .ok next) :
    (∀ m ∈ members, ∃ a ∈ next.assignments, a.taskId = taskId ∧ a.memberId = m) ∧
    ∃ added, next.assignments = s.assignments ++ added ∧ ∀ a ∈ added, a.taskId = taskId ∧ a.memberId ∈ members := by
  simp only [Store.addAssignments] at ok
  split at ok <;> cases ok
  refine ⟨fun m mem => ?_,_,rfl,fun a mem => ?_⟩
  · by_cases already : ∃ a ∈ s.assignments, a.taskId = taskId ∧ a.memberId = m
    · obtain ⟨a,mem,is⟩ := already
      exact ⟨a,List.mem_append_left _ mem,is⟩
    · refine ⟨⟨taskId,m,time⟩,List.mem_append_right _ (List.mem_map.mpr ⟨m,?_,rfl⟩),rfl,rfl⟩
      simp only [List.mem_filter,List.mem_dedup,mem,true_and,List.all_eq_true]
      intro a there
      simpa [imp_iff_not_or] using fun same is => already ⟨a,there,same,is⟩
  · obtain ⟨m,fresh,rfl⟩ := List.mem_map.mp mem
    exact ⟨rfl,List.mem_dedup.mp (List.mem_of_mem_filter fresh)⟩

theorem storedChanged {familyId : FamilyId} {head : Task} (view : s.lockById familyId head.id = .ok (some head))
    (id : t.id = head.id) (predecessor : t.predecessorId = head.predecessorId)
    (creator : t.createdByMemberId = head.createdByMemberId) (row : Store.Changed intl s next t) :
    Stored intl next familyId t := by
  obtain ⟨old,written,found,made,now⟩ := row
  obtain ⟨loadedRow,there,-,family,loaded⟩ := Store.lockSource view
  obtain rfl : old = loadedRow := Option.some.inj (found.symm.trans (id ▸ there))
  exact ⟨_,now,made,family,(loaded.predecessor.symm.trans predecessor.symm),(loaded.creator.symm.trans creator.symm)⟩

end

section
variable {intl : Intl} {db next : Database} {r : Request} {head closed : Task} {reply : Reply} {state : TaskState}
  {event : TaskEvent} {saved : Store}

theorem handedOn (view : db.tasks.lockById r.familyId head.id = .ok (some head))
    (is : closed = { head with state := state, version := head.version + 1 })
    (moved : Moved intl r db.tasks.issued head closed) (kept : db.tasks.save intl closed = .ok saved)
    (spawned : Tasks.spawnSuccessor intl saved r closed = .ok (.ok (reply,next.tasks)))
    (outbox : next.outbox = db.outbox ++ event :: (reply.successor.map (createdEvent r.familyId)).toList) :
    HandedOn intl r head state event db next := by
  obtain ⟨effect,-,-⟩ := spawnEffect moved kept spawned
  obtain ⟨row,-,assignments,issued⟩ := Store.saveSource kept
  rcases spawnSource spawned with ⟨found,same,alone⟩ | ⟨due,handed,found,passed,added,succeeded⟩
  · subst is
    simp only [HandedOn,found]
    exact ⟨same ▸ storedChanged view rfl rfl rfl row,by simpa [alone] using outbox⟩
  · obtain ⟨mid,relinquished,inserted⟩ := Store.handOverSource passed
    have copied := addedSource added
    rw [(Store.insertSource inserted).2.2.1,(Store.saveSource relinquished).2.2.1,assignments,issued] at copied
    cases effect with
    | kept => cases succeeded
    | moved => cases succeeded
    | handed _ _ closedRow placed _ =>
      rw [issued] at succeeded
      injection succeeded with same successor
      injection successor with successor
      rw [same] at closedRow
      rw [successor] at placed outbox
      obtain ⟨written,none_,made,placed⟩ := placed
      subst is
      simp only [HandedOn,found]
      exact ⟨storedChanged view rfl rfl rfl closedRow,Task.successorOf db.tasks.issued _ due r.memberId,rfl,
        { stored := ⟨_,placed,made,rfl,rfl,rfl⟩, fresh := none_, predecessor := rfl, series := rfl, flagged := rfl,
          open_ := rfl, everyone := copied.1, nobodyElse := copied.2 },outbox⟩

end

/- A command that does not succeed leaves denials at most; a close that succeeds has handed on. -/
theorem nothingHalfDone (intl : Intl) (outage : Nat → Bool) (userId : Option UserId) (db : Database) (r : Request) :
    ((∀ reply, (execute intl outage userId r db).1 ≠ .ok (.ok reply)) → Refused db (execute intl outage userId r db).2) ∧
    ∀ id state event reply, closing r = some (id,state,event) →
      (execute intl outage userId r db).1 = .ok (.ok reply) →
        ∃ head, db.tasks.lockById r.familyId id = .ok (some head) ∧
          HandedOn intl r head state event db (execute intl outage userId r db).2 := by
  have settled : Settled db _ _ (execute intl outage userId r db) := executeSettled
  generalize execute intl outage userId r db = done at settled
  rcases settled with ⟨result,is,did⟩ | ⟨never,same⟩
  · refine ⟨fun failed => ?_,fun id state event reply closes succeeded => ?_⟩
    · cases result with
      | error e => exact did.2
      | ok reply => exact absurd is (failed reply)
    · cases result with
      | error e => cases is.symm.trans succeeded
      | ok reply' =>
        obtain ⟨performed,-,events,outbox,told⟩ := did
        obtain ⟨head,closed,saved,view,made,moved,kept,spawned⟩ := closingSource closes performed
        obtain ⟨row,-,same,-,loaded⟩ := Store.lockSource view
        have own : head.id = id := loaded.id.trans same
        refine ⟨head,view,handedOn (own.symm ▸ view) made moved kept spawned ?_⟩
        have task : reply'.task.id = id := by
          have effect := (spawnEffect moved kept spawned).1
          cases effect with
          | kept => exact own
          | moved move => exact (movedKeeps move).1.trans own
          | handed move => exact (movedKeeps move).1.trans own
        rw [outbox]
        unfold closing at closes
        split at closes <;> cases closes
        all_goals
          rename_i version command
          simp only [Published,command,task] at told
          rw [told]
  · exact ⟨fun _ => same ▸ .refl db,fun id state event reply _ succeeded => absurd succeeded (never reply)⟩

def weeklyChore : Database :=
  let made := (execute everywhereUtc (fun _ => false) none ⟨.createTask ⟨"Bins",none,none,none,
    some (.date ⟨2026,9,30⟩ "Europe/London"),some "FREQ=WEEKLY",[7]⟩,0,1,[1,7],[1,7],1000,1000⟩ ⟨.empty,[],[]⟩).2
  { made with tasks := { made.tasks with issued := 1 } }

def closesChore : Request := ⟨.completeTask 0 1,0,1,[1,7],[1,7],2000,2000⟩

theorem choreHandedOn :
    Refused weeklyChore (execute everywhereUtc (fun n => n = 5) none closesChore weeklyChore).2 ∧
    ∃ head, weeklyChore.tasks.lockById 0 0 = .ok (some head) ∧
      HandedOn everywhereUtc closesChore head (.completed 2000 (some 1)) (.taskCompleted 0 0 1) weeklyChore
        (execute everywhereUtc (fun _ => false) none closesChore weeklyChore).2 := by
  constructor
  · refine (nothingHalfDone everywhereUtc (fun n => n = 5) none weeklyChore closesChore).1 (fun reply => ?_)
    have raised : (execute everywhereUtc (fun n => n = 5) none closesChore weeklyChore).1 = .error .databaseLost := by
      decide +kernel
    rw [raised]
    exact fun is => by cases is
  · have done : ((execute everywhereUtc (fun _ => false) none closesChore weeklyChore).1.toOption.bind
        Except.toOption).isSome = true := by decide +kernel
    cases ran : (execute everywhereUtc (fun _ => false) none closesChore weeklyChore).1 with
    | error e =>
      rw [ran] at done
      cases done
    | ok result =>
      cases result with
      | error e =>
        rw [ran] at done
        cases done
      | ok reply => exact (nothingHalfDone everywhereUtc (fun _ => false) none weeklyChore closesChore).2 0 _ _ reply rfl ran

end FamilyPlatform.Tasks.Transactions
