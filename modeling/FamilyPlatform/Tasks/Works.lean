import FamilyPlatform.Lib.RowLock
import FamilyPlatform.Tasks.Rows

/-! The commands and the overdue reports as transactions that lock the row of their
task, and what each of them does to the rows. -/
namespace FamilyPlatform.Tasks
open ZonedTime

def Command.taskId : Command → Option TaskId
  | .createTask _ => none
  | .updateTask id _ _ | .completeTask id _ | .cancelTask id _ _ | .reopenTask id _ | .assignTask id _
  | .unassignTask id _ => some id

def Command.expectedVersion : Command → Option Nat
  | .updateTask _ version _ | .completeTask _ version | .cancelTask _ version _ | .reopenTask _ version => some version
  | .createTask _ | .assignTask _ _ | .unassignTask _ _ => none

structure TaskOverdue where
  familyId : FamilyId
  taskId : TaskId
  dueAt : Instant
  deriving DecidableEq, Repr

structure ReportRequest where
  familyId : FamilyId
  taskId : TaskId
  now : Instant
  deriving DecidableEq, Repr

/- The event is appended in the transaction that sets the marker. -/
def reportLocked (intl : Intl) (s : Store) (r : ReportRequest) (task : Task) :
    Except Thrown (Option TaskOverdue × Store) := do
  match ← orThrow (task.dueAt intl) with
  | none => return (none, s)
  | some dueAt =>
    if ← orThrow (needsOverdueReport intl task r.now) then
      let marked ← orThrow (task.recordOverdueReported intl)
      let saved ← s.save intl marked
      return (some ⟨r.familyId,task.id,dueAt⟩, saved)
    else return (none, s)

def reportOverdue (intl : Intl) (s : Store) (r : ReportRequest) : Except Thrown (Option TaskOverdue × Store) := do
  match ← s.lockById r.familyId r.taskId with
  | none => return (none, s)
  | some task => reportLocked intl s r task

inductive Work where
  | member (request : Request)
  | report (request : ReportRequest)
  deriving DecidableEq, Repr

inductive WorkOutcome where
  | replied (outcome : Except Thrown (Result Reply))
  | reported (outcome : Except Thrown (Option TaskOverdue))
  deriving DecidableEq

abbrev View := Except Thrown (Option Task)

def Work.taskId : Work → Option TaskId
  | .member r => r.command.taskId
  | .report r => some r.taskId

def Work.familyId : Work → FamilyId
  | .member r => r.familyId
  | .report r => r.familyId

def readLocked (s : Store) (w : Work) : View :=
  match w.taskId with
  | none => .ok none
  | some id => s.lockById w.familyId id

/- A hidden task is not found, before its version is looked at. -/
def visibleTask (r : Request) : Option Task → Result Task
  | none => .error .notFound
  | some task =>
    if task.assignees.any (· ∉ r.visible) then .error .notFound
    else if r.command.expectedVersion.any (· ≠ task.version) then .error (.versionConflict task.version)
    else .ok task

def lockedWork (intl : Intl) (s : Store) (r : Request) (task : Task) : Answer :=
  match r.command with
  | .createTask params => createTask intl s r params
  | .updateTask _ _ patch => updateLocked intl s patch task
  | .completeTask _ _ => completeLocked intl s r task
  | .cancelTask _ _ scope => cancelLocked intl s r scope task
  | .reopenTask _ _ => reopenLocked intl s task
  | .assignTask taskId assignee => assignLocked intl s r taskId assignee task
  | .unassignTask taskId assignee => unassignLocked intl s taskId assignee task

def performLocked (intl : Intl) (s : Store) (r : Request) (view : View) : Answer :=
  match r.command with
  | .createTask params => createTask intl s r params
  | _ => do
    match visibleTask r (← view) with
    | .error e => return .error e
    | .ok task => lockedWork intl s r task

def settle (s : Store) : Answer → Except Thrown (Result Reply) × Store
  | .ok (.ok (reply, next)) => (.ok (.ok reply), { next with issued := s.issued + 1 })
  | .ok (.error e) => (.ok (.error e), { s with issued := s.issued + 1 })
  | .error e => (.error e, { s with issued := s.issued + 1 })

def reportView (intl : Intl) (s : Store) (r : ReportRequest) (view : View) :
    Except Thrown (Option TaskOverdue × Store) := do
  match ← view with
  | none => return (none, s)
  | some task => reportLocked intl s r task

def writeLocked (intl : Intl) (s : Store) (w : Work) (view : View) : WorkOutcome × Store :=
  match w with
  | .member r =>
    let (outcome, next) := settle s (performLocked intl s r view)
    (.replied outcome, next)
  | .report r => match reportView intl s r view with
    | .ok (event, next) => (.reported (.ok event), next)
    | .error e => (.reported (.error e), s)

def works (intl : Intl) : RowLock.System Store Work TaskId View WorkOutcome where
  key := Work.taskId
  read := readLocked
  holds := fun view => match view with
    | .ok (some _) => true
    | _ => false
  write := writeLocked intl

theorem whenLockedView (s : Store) (r : Request) (taskId : TaskId) (work : Task → Answer) :
    whenLocked s r taskId r.command.expectedVersion work =
      (do
        match visibleTask r (← s.lockById r.familyId taskId) with
        | .error e => return .error e
        | .ok task => work task) := by
  unfold whenLocked lockVisibleTask
  cases s.lockById r.familyId taskId with
  | error e => rfl
  | ok found =>
    cases found with
    | none => rfl
    | some task =>
      simp only [visibleTask,bind,Except.bind]
      by_cases hidden : (task.assignees.any (· ∉ r.visible)) = true
      · simp only [if_pos hidden]
        rfl
      · simp only [if_neg hidden]
        by_cases stale : (r.command.expectedVersion.any (· ≠ task.version)) = true
        · simp only [if_pos stale]
          rfl
        · simp only [if_neg stale]
          rfl

theorem performRead (intl : Intl) (s : Store) (r : Request) :
    perform intl s r = performLocked intl s r (readLocked s (.member r)) := by
  have locked : ∀ taskId work, whenLocked s r taskId r.command.expectedVersion work = _ := whenLockedView s r
  unfold perform performLocked
  cases command : r.command <;> rw [command] at locked <;>
    simp only [updateTask,completeTask,cancelTask,reopenTask,assignTask,unassignTask,readLocked,Work.taskId,Work.familyId,
      command,Command.taskId,lockedWork]
  all_goals exact locked _ _

theorem memberWrite (intl : Intl) (s : Store) (r : Request) : writeLocked intl s (.member r)
    (readLocked s (.member r)) = (.replied (handle intl s r).1,(handle intl s r).2) := by
  have same : handle intl s r = settle s (performLocked intl s r (readLocked s (.member r))) := by
    rw [← performRead]
    rfl
  rw [same]
  rfl

theorem reportRead (intl : Intl) (s : Store) (r : ReportRequest) :
    reportOverdue intl s r = reportView intl s r (readLocked s (.report r)) := rfl

inductive Moved (intl : Intl) (r : Request) (series : TaskSeriesId) (t : Task) : Task → Prop where
  | updated {id version patch t' changed} (command : r.command = .updateTask id version patch)
      (ok : t.update intl patch series = some (.ok (t',changed))) (some_ : changed ≠ []) : Moved intl r series t t'
  | completed {id version t'} (command : r.command = .completeTask id version)
      (ok : t.complete r.memberId r.now = .ok t') : Moved intl r series t t'
  | cancelled {id version scope t'} (command : r.command = .cancelTask id version scope)
      (ok : t.cancel r.memberId r.now = .ok t') : Moved intl r series t t'
  | reopened {id version t'} (command : r.command = .reopenTask id version) (ok : t.reopen = .ok t') :
      Moved intl r series t t'
  | assigned {id member t'} (command : r.command = .assignTask id member) (ok : t.assign member = .ok (some t')) :
      Moved intl r series t t'
  | unassigned {id member t'} (command : r.command = .unassignTask id member)
      (ok : t.unassign member = .ok (some t')) : Moved intl r series t t'

def Apart (id : TaskId) (s next : Store) : Prop := ∀ other, other ≠ id → (s.tasks.find other).isSome = true →
  next.tasks.find other = s.tasks.find other ∧ next.assigneesOf other = s.assigneesOf other

inductive Effect (intl : Intl) (s : Store) (r : Request) (t : Task) : Reply → Store → Prop where
  | kept {next} (tasks : next.tasks = s.tasks) (assignments : next.assignments = s.assignments) :
      Effect intl s r t ⟨t,none⟩ next
  | moved {t' next} (move : Moved intl r s.issued t t') (row : Store.Changed intl s next t')
      (rows : ∀ id, id ≠ t'.id → next.tasks.find id = s.tasks.find id) : Effect intl s r t ⟨t',none⟩ next
  | handed {t' due next} (move : Moved intl r s.issued t t')
      (found : successorDueOf intl t' r.now = some (.ok (some due)))
      (row : Store.Changed intl s next t'.relinquishHead)
      (placed : Store.Placed intl s next r.familyId (Task.successorOf s.issued t' due r.memberId))
      (rows : ∀ id, id ≠ t'.id → id ≠ s.issued → next.tasks.find id = s.tasks.find id) :
      Effect intl s r t ⟨t'.relinquishHead,some (Task.successorOf s.issued t' due r.memberId)⟩ next

section
variable {intl : Intl} {s next : Store} {r : Request} {t : Task} {reply : Reply}

theorem Apart.refl {id : TaskId} : Apart id s s := fun _ _ _ => ⟨rfl,rfl⟩

theorem Apart.trans {id : TaskId} {u : Store} (first : Apart id s u) (second : Apart id u next) : Apart id s next := by
  intro other apart there
  obtain ⟨row,assignees⟩ := first other apart there
  obtain ⟨row',assignees'⟩ := second other apart (row ▸ there)
  exact ⟨row'.trans row,assignees'.trans assignees⟩

theorem saveApart (ok : s.save intl t = .ok next) : Apart t.id s next := by
  obtain ⟨-,rows,assignments,-⟩ := Store.saveSource ok
  refine fun other apart _ => ⟨rows other apart,?_⟩
  simp only [Store.assigneesOf,assignments]

theorem saveAndSource {moved : Result Task} {after : Store → Task → Answer}
    (ok : saveAnd intl s moved after = .ok (.ok (reply,next))) :
    ∃ t' saved, moved = .ok t' ∧ s.save intl t' = .ok saved ∧ after saved t' = .ok (.ok (reply,next)) := by
  unfold saveAnd at ok
  split at ok
  · cases ok
  · rename_i t'
    obtain ⟨saved,kept,ok⟩ := bindSource ok
    exact ⟨t',saved,rfl,kept,ok⟩

theorem movedKeeps {n : TaskSeriesId} {t' : Task} (move : Moved intl r n t t') :
    t'.id = t.id ∧ t'.version = t.version + 1 ∧ t'.overdueReportedFor = t.overdueReportedFor := by
  cases move with
  | updated _ ok some_ =>
    rcases (Task.updateSource ok).2 with ⟨none_,-⟩ | ⟨-,edited⟩
    · exact absurd none_ some_
    · exact ⟨edited.kept.id,edited.version,edited.kept.reported⟩
  | completed _ ok => obtain ⟨-,rfl⟩ := Task.completeSource ok; exact ⟨rfl,rfl,rfl⟩
  | cancelled _ ok => obtain ⟨-,rfl⟩ := Task.cancelSource ok; exact ⟨rfl,rfl,rfl⟩
  | reopened _ ok => obtain ⟨-,rfl⟩ := Task.reopenSource ok; exact ⟨rfl,rfl,rfl⟩
  | assigned _ ok => obtain ⟨-,rfl⟩ := Task.assignSource ok; exact ⟨rfl,rfl,rfl⟩
  | unassigned _ ok => obtain ⟨-,rfl⟩ := Task.unassignSource ok; exact ⟨rfl,rfl,rfl⟩

theorem savedEffect {kept saved : Store} {t' : Task} (move : Moved intl r s.issued t t') (tasks : kept.tasks = s.tasks)
    (ok : kept.save intl t' = .ok saved) : Effect intl s r t ⟨t',none⟩ saved := by
  obtain ⟨⟨old,written,found,made,row⟩,rows,-⟩ := Store.saveSource ok
  exact .moved move ⟨old,written,tasks ▸ found,made,row⟩ (fun id apart => tasks ▸ rows id apart)

theorem spawnEffect {saved : Store} {t' : Task} (move : Moved intl r s.issued t t') (ok : s.save intl t' = .ok saved)
    (spawned : spawnSuccessor intl saved r t' = .ok (.ok (reply,next))) :
    Effect intl s r t reply next ∧ Apart t.id s next ∧ next.issued = s.issued := by
  obtain ⟨⟨old,written,found,made,row⟩,rows,assignments,issued⟩ := Store.saveSource ok
  have same := (movedKeeps move).1
  have first : Apart t.id s saved := same ▸ saveApart ok
  unfold spawnSuccessor at spawned
  obtain ⟨due,computed,spawned⟩ := bindSource spawned
  split at spawned
  · cases spawned
  · cases spawned
    exact ⟨.moved move ⟨old,written,found,made,row⟩ rows,first,issued⟩
  · rename_i due_
    obtain ⟨handed,ok',spawned⟩ := bindSource spawned
    obtain ⟨last,added,spawned⟩ := bindSource spawned
    cases spawned
    obtain ⟨mid,relinquished,inserted⟩ := Store.handOverSource ok'
    obtain ⟨⟨old₂,written₂,found₂,made₂,row₂⟩,rows₂,assignments₂,issued₂⟩ := Store.saveSource relinquished
    obtain ⟨⟨written₃,none₃,made₃,row₃⟩,rows₃,assignments₃,issued₃⟩ := Store.insertSource inserted
    obtain ⟨tasks,issued₄,others⟩ := Store.addSource added
    have id : t'.relinquishHead.id = t'.id := rfl
    have second : Apart t.id saved mid := same ▸ id ▸ saveApart relinquished
    rw [issued] at made₃ row₃ none₃ rows₃ others ⊢
    have new : (Task.successorOf s.issued t' due_ r.memberId).id ≠ t'.id := by
      intro is
      rw [is,← id,row₂] at none₃
      cases none₃
    have absent : s.tasks.find (Task.successorOf s.issued t' due_ r.memberId).id = none := by
      rw [← rows _ new,← rows₂ _ new]
      exact none₃
    refine ⟨.handed move (orThrowSource computed) ⟨old,written₂,found,made₂,?_⟩ ⟨written₃,absent,made₃,?_⟩
      (fun other apart apart' => ?_),?_,?_⟩
    · rw [tasks,rows₃ _ (by rw [id]; exact new.symm),row₂]
      obtain rfl : old₂ = { old with toTaskColumns := written } := Option.some.inj (found₂.symm.trans row)
      rfl
    · rw [tasks,row₃]
    · rw [tasks,rows₃ other apart',rows₂ other apart,rows other apart]
    · refine first.trans (second.trans ?_)
      intro other apart there
      have different : other ≠ (Task.successorOf s.issued t' due_ r.memberId).id := by
        rintro rfl
        rw [none₃] at there
        cases there
      refine ⟨by rw [tasks,rows₃ _ different],?_⟩
      rw [others other different]
      simp only [Store.assigneesOf,assignments₃]
    · rw [issued₄,issued₃,issued₂,issued]

/- The step as one locked command takes it: its effect, whose row it touches, and the series numbers. -/
def Worked (intl : Intl) (s : Store) (r : Request) (t : Task) (reply : Reply) (next : Store) : Prop :=
  Effect intl s r t reply next ∧ Apart t.id s next ∧ next.issued = s.issued

theorem saveWorked {t' : Task} (move : Moved intl r s.issued t t') (ok : s.save intl t' = .ok next) :
    Worked intl s r t ⟨t',none⟩ next :=
  ⟨savedEffect move rfl ok,(movedKeeps move).1 ▸ saveApart ok,(Store.saveSource ok).2.2.2⟩

theorem besideWorked {t' : Task} {kept : Store} (move : Moved intl r s.issued t t') (tasks : kept.tasks = s.tasks)
    (issued : kept.issued = s.issued) (beside : Apart t.id s kept) (ok : kept.save intl t' = .ok next) :
    Worked intl s r t ⟨t',none⟩ next :=
  ⟨savedEffect move tasks ok,beside.trans ((movedKeeps move).1 ▸ saveApart ok),
    (Store.saveSource ok).2.2.2.trans issued⟩

theorem keptWorked : Worked intl s r t ⟨t,none⟩ s := ⟨.kept rfl rfl,.refl,rfl⟩

theorem updateWorked {taskId : TaskId} {version : Nat} {patch : TaskPatch}
    (command : r.command = .updateTask taskId version patch)
    (ok : updateLocked intl s patch t = .ok (.ok (reply,next))) : Worked intl s r t reply next := by
  unfold updateLocked at ok
  obtain ⟨edit,updated,ok⟩ := bindSource ok
  split at ok
  · cases ok
  · rename_i t' changed
    split at ok
    · rename_i none_
      cases ok
      rcases (Task.updateSource (orThrowSource updated)).2 with ⟨-,rfl⟩ | ⟨some_,-⟩
      · exact keptWorked
      · exact absurd none_ some_
    · rename_i some_
      obtain ⟨_,after,same,kept,ok⟩ := saveAndSource ok
      cases same
      cases ok
      exact saveWorked (.updated command (orThrowSource updated) some_) kept

theorem completeWorked {taskId : TaskId} {version : Nat} (command : r.command = .completeTask taskId version)
    (ok : completeLocked intl s r t = .ok (.ok (reply,next))) : Worked intl s r t reply next := by
  obtain ⟨t',after,moved,kept,ok⟩ := saveAndSource ok
  exact spawnEffect (.completed command moved) kept ok

theorem cancelWorked {taskId : TaskId} {version : Nat} {scope : Scope}
    (command : r.command = .cancelTask taskId version scope)
    (ok : cancelLocked intl s r scope t = .ok (.ok (reply,next))) : Worked intl s r t reply next := by
  obtain ⟨t',after,moved,kept,ok⟩ := saveAndSource ok
  split at ok
  · cases ok
    exact saveWorked (.cancelled command moved) kept
  · exact spawnEffect (.cancelled command moved) kept ok

theorem reopenWorked {taskId : TaskId} {version : Nat} (command : r.command = .reopenTask taskId version)
    (ok : reopenLocked intl s t = .ok (.ok (reply,next))) : Worked intl s r t reply next := by
  obtain ⟨t',after,moved,kept,ok⟩ := saveAndSource ok
  cases ok
  exact saveWorked (.reopened command moved) kept

theorem assignWorked {assignee : FamilyMemberId} (command : r.command = .assignTask t.id assignee)
    (ok : assignLocked intl s r t.id assignee t = .ok (.ok (reply,next))) : Worked intl s r t reply next := by
  unfold assignLocked at ok
  split at ok
  · cases ok
  · cases ok
    exact keptWorked
  · rename_i assigned moved
    split at ok
    · cases ok
    · cases ok
    · rename_i added there
      obtain ⟨_,after,same,kept,ok⟩ := saveAndSource ok
      cases same
      cases ok
      obtain ⟨tasks,issued,others⟩ := Store.addSource there
      exact besideWorked (.assigned command moved) tasks issued
        (fun other apart _ => ⟨by rw [tasks],others other apart⟩) kept

theorem unassignWorked {assignee : FamilyMemberId} (command : r.command = .unassignTask t.id assignee)
    (ok : unassignLocked intl s t.id assignee t = .ok (.ok (reply,next))) : Worked intl s r t reply next := by
  unfold unassignLocked at ok
  split at ok
  · cases ok
  · cases ok
    exact keptWorked
  · rename_i unassigned moved
    obtain ⟨_,after,same,kept,ok⟩ := saveAndSource ok
    cases same
    cases ok
    have tasks : (s.removeAssignment t.id assignee).tasks = s.tasks := rfl
    exact besideWorked (.unassigned command moved) tasks rfl
      (fun other apart _ => ⟨rfl,Store.removeOther apart⟩) kept

theorem workEffect (id : r.command.taskId = some t.id) (ok : lockedWork intl s r t = .ok (.ok (reply,next))) :
    Effect intl s r t reply next ∧ Apart t.id s next ∧ next.issued = s.issued := by
  unfold lockedWork at ok
  cases command : r.command with
  | createTask params =>
    rw [command] at id
    cases id
  | updateTask taskId version patch =>
    rw [command] at ok
    exact updateWorked command ok
  | completeTask taskId version =>
    rw [command] at ok
    exact completeWorked command ok
  | cancelTask taskId version scope =>
    rw [command] at ok
    exact cancelWorked command ok
  | reopenTask taskId version =>
    rw [command] at ok
    exact reopenWorked command ok
  | assignTask taskId assignee =>
    rw [command] at ok id
    cases id
    exact assignWorked command ok
  | unassignTask taskId assignee =>
    rw [command] at ok id
    cases id
    exact unassignWorked command ok

theorem createEffect {params : NewTask} (ok : createTask intl s r params = .ok (.ok (reply,next))) :
    ∃ t, Task.create params s.issued r.familyId s.issued r.memberId = .ok t ∧ reply = ⟨t,none⟩ ∧
      Store.Placed intl s next r.familyId t ∧ (∀ id, id ≠ t.id → next.tasks.find id = s.tasks.find id) ∧
      ∀ id, (s.tasks.find id).isSome = true → next.tasks.find id = s.tasks.find id ∧
        next.assigneesOf id = s.assigneesOf id := by
  unfold createTask at ok
  split at ok
  · cases ok
  rename_i t created
  obtain ⟨inserted,put,ok⟩ := bindSource ok
  obtain ⟨⟨written,none_,made,row⟩,rows,assignments,issued⟩ := Store.insertSource put
  split at ok
  · cases ok
  · cases ok
  · rename_i last added
    cases ok
    obtain ⟨tasks,-,others⟩ := Store.addSource added
    refine ⟨t,created,rfl,⟨written,none_,made,by rw [tasks,row]⟩,fun id apart => by rw [tasks,rows id apart],
      fun id there => ?_⟩
    have different : id ≠ t.id := by
      rintro rfl
      rw [none_] at there
      cases there
    refine ⟨by rw [tasks,rows id different],?_⟩
    rw [others id different]
    simp only [Store.assigneesOf,assignments]

end

inductive Did (intl : Intl) (s : Store) : Work → WorkOutcome → Store → Prop where
  | created {r params t next} (command : r.command = .createTask params)
      (ok : Task.create params s.issued r.familyId s.issued r.memberId = .ok t)
      (row : Store.Placed intl s next r.familyId t)
      (rows : ∀ id, id ≠ t.id → next.tasks.find id = s.tasks.find id)
      (others : ∀ id, (s.tasks.find id).isSome = true → next.tasks.find id = s.tasks.find id ∧
        next.assigneesOf id = s.assigneesOf id) : Did intl s (.member r) (.replied (.ok (.ok ⟨t,none⟩))) next
  | worked {r t reply next} (id : r.command.taskId = some t.id) (view : readLocked s (.member r) = .ok (some t))
      (sees : visibleTask r (some t) = .ok t) (effect : Effect intl s r t reply next) (others : Apart t.id s next) :
      Did intl s (.member r) (.replied (.ok (.ok reply))) next
  | refused {r outcome next} (no : ∀ reply, outcome ≠ .ok (.ok reply)) (tasks : next.tasks = s.tasks)
      (assignments : next.assignments = s.assignments) : Did intl s (.member r) (.replied outcome) next
  | reported {r t dueAt next} (id : r.taskId = t.id) (view : readLocked s (.report r) = .ok (some t))
      (moment : t.dueAt intl = some (some dueAt)) (needs : needsOverdueReport intl t r.now = some true)
      (row : Store.Changed intl s next { t with overdueReportedFor := some dueAt })
      (rows : ∀ id, id ≠ t.id → next.tasks.find id = s.tasks.find id) (others : Apart t.id s next) :
      Did intl s (.report r) (.reported (.ok (some ⟨r.familyId,t.id,dueAt⟩))) next
  | unreported {r outcome} (no : ∀ event, outcome ≠ .ok (some event)) : Did intl s (.report r) (.reported outcome) s

section
variable {intl : Intl} {s next : Store} {r : Request} {t : Task} {reply : Reply}

theorem visibleSource {seen : Option Task} (ok : visibleTask r seen = .ok t) : seen = some t := by
  unfold visibleTask at ok
  split at ok
  · cases ok
  · split at ok
    · cases ok
    · split at ok <;> cases ok
      rfl

theorem Effect.issued {n : Nat} (effect : Effect intl s r t reply next) :
    Effect intl s r t reply { next with issued := n } := by
  cases effect with
  | kept tasks assignments => exact .kept tasks assignments
  | moved move row rows => exact .moved move row rows
  | handed move found row placed rows => exact .handed move found row placed rows

theorem viewSource {w : Work} (view : readLocked s w = .ok (some t)) : ∃ row, s.tasks.find t.id = some row ∧
    w.taskId = some t.id ∧ s.lockById w.familyId t.id = .ok (some t) ∧ Loaded row (s.assigneesOf t.id) t := by
  cases key : w.taskId with
  | none =>
    simp only [readLocked,key] at view
    cases view
  | some id =>
    simp only [readLocked,key] at view
    obtain ⟨row,there,is,-,loaded⟩ := Store.lockSource view
    obtain rfl : t.id = id := loaded.id.trans is
    exact ⟨row,there,rfl,view,loaded⟩

theorem memberDid {view : View} (read : view = readLocked s (.member r)) :
    Did intl s (.member r) (writeLocked intl s (.member r) view).1 (writeLocked intl s (.member r) view).2 := by
  subst read
  rw [memberWrite,handle]
  cases performed : perform intl s r with
  | error e => exact .refused (by simp) rfl rfl
  | ok result =>
    cases result with
    | error e => exact .refused (by simp) rfl rfl
    | ok done =>
      obtain ⟨reply,next⟩ := done
      rw [performRead] at performed
      cases command : r.command with
      | createTask params =>
        simp only [performLocked,command] at performed
        obtain ⟨t,created,rfl,row,rows,others⟩ := createEffect performed
        exact .created command created row rows others
      | _ =>
        simp only [performLocked,command] at performed
        obtain ⟨seen,view,performed⟩ := bindSource performed
        split at performed
        · cases performed
        rename_i t sees
        have some_ := visibleSource sees
        subst some_
        have id : r.command.taskId = some t.id := by
          simp only [readLocked,Work.taskId,command,Command.taskId] at view ⊢
          obtain ⟨row,-,is,-,loaded⟩ := Store.lockSource view
          rw [loaded.id,is]
        obtain ⟨effect,others,-⟩ := workEffect id performed
        exact .worked id view sees effect.issued others

theorem reportDid {r : ReportRequest} {view : View} (read : view = readLocked s (.report r)) :
    Did intl s (.report r) (writeLocked intl s (.report r) view).1 (writeLocked intl s (.report r) view).2 := by
  subst read
  simp only [writeLocked]
  cases reported : reportView intl s r (readLocked s (.report r)) with
  | error e => exact .unreported (by simp)
  | ok done =>
    obtain ⟨event,next⟩ := done
    obtain ⟨seen,view,reported⟩ := bindSource reported
    split at reported
    · cases reported
      exact .unreported (by simp)
    rename_i t
    unfold reportLocked at reported
    obtain ⟨dueAt,moment,reported⟩ := bindSource reported
    split at reported
    · cases reported
      exact .unreported (by simp)
    rename_i dueAt
    obtain ⟨needs,checked,reported⟩ := bindSource reported
    split at reported
    · rename_i yes
      obtain ⟨marked,recorded,reported⟩ := bindSource reported
      obtain ⟨saved,kept,reported⟩ := bindSource reported
      cases reported
      have same : marked = { t with overdueReportedFor := some dueAt } := by
        have recorded := orThrowSource recorded
        rw [Task.recordOverdueReported,orThrowSource moment] at recorded
        exact (Option.some.inj recorded).symm
      subst same
      obtain ⟨row,-,is,-,loaded⟩ := Store.lockSource view
      have others : Apart t.id s next := saveApart (t := { t with overdueReportedFor := some dueAt }) kept
      exact .reported (loaded.id.trans is).symm view (orThrowSource moment) (yes ▸ orThrowSource checked)
        (Store.saveSource kept).1 (Store.saveSource kept).2.1 others
    · cases reported
      exact .unreported (by simp)

theorem writeDid {w : Work} {view : View} (read : view = readLocked s w) :
    Did intl s w (writeLocked intl s w view).1 (writeLocked intl s w view).2 := by
  cases w with
  | member r => exact memberDid read
  | report r => exact reportDid read

theorem didApart {w : Work} {outcome : WorkOutcome} (did : Did intl s w outcome next) {id : TaskId}
    (other : w.taskId ≠ some id) (there : (s.tasks.find id).isSome = true) :
    next.tasks.find id = s.tasks.find id ∧ next.assigneesOf id = s.assigneesOf id := by
  have apart : ∀ {own : TaskId}, w.taskId = some own → id ≠ own := by
    rintro own is rfl
    exact other is
  cases did with
  | created _ _ _ _ others => exact others id there
  | worked is _ _ _ others => exact others id (apart is) there
  | refused _ tasks assignments => exact ⟨by rw [tasks],by simp only [Store.assigneesOf,assignments]⟩
  | reported is _ _ _ _ _ others => exact others id (apart (congrArg some is)) there
  | unreported _ => exact ⟨rfl,rfl⟩

theorem holdsSource {w : Work} (held : (works intl).holds (readLocked s w) = true) :
    ∃ id, w.taskId = some id ∧ ∃ t, readLocked s w = .ok (some t) ∧ (s.tasks.find id).isSome = true := by
  cases key : w.taskId with
  | none =>
    simp only [readLocked,key] at held
    cases held
  | some id =>
    simp only [readLocked,key] at held ⊢
    cases view : s.lockById w.familyId id with
    | error e =>
      rw [view] at held
      cases held
    | ok found =>
      rw [view] at held
      cases found with
      | none => cases held
      | some t =>
        obtain ⟨row,there,-⟩ := Store.lockSource view
        exact ⟨id,rfl,t,rfl,by rw [there]; rfl⟩

theorem worksFramed : RowLock.Framed (works intl) := by
  intro s q r different held
  obtain ⟨id,key,t,-,there⟩ := holdsSource held
  have other : q.taskId ≠ some id := fun same => different (same.trans key.symm)
  have did : Did intl s q _ _ := writeDid rfl
  obtain ⟨row,assignees⟩ := didApart did other there
  simp only [works,readLocked,key]
  exact Store.lockSame row assignees

theorem visibleAssignees {seen : Option Task} (ok : visibleTask r seen = .ok t) : ∀ m ∈ t.assignees, m ∈ r.visible := by
  obtain rfl := visibleSource ok
  unfold visibleTask at ok
  simp only at ok
  split at ok
  · cases ok
  · rename_i all
    simpa using all

theorem movedAssignees {n : TaskSeriesId} {t' : Task} (move : Moved intl r n t t') :
    ∀ m ∈ t'.assignees, m ∈ t.assignees ∨ ∃ id, r.command = .assignTask id m := by
  intro m mem
  cases move with
  | updated _ ok some_ =>
    rcases (Task.updateSource ok).2 with ⟨none_,-⟩ | ⟨-,edited⟩
    · exact absurd none_ some_
    · exact .inl (edited.kept.assignees ▸ mem)
  | completed _ ok => obtain ⟨-,rfl⟩ := Task.completeSource ok; exact .inl mem
  | cancelled _ ok => obtain ⟨-,rfl⟩ := Task.cancelSource ok; exact .inl mem
  | reopened _ ok => obtain ⟨-,rfl⟩ := Task.reopenSource ok; exact .inl mem
  | assigned command ok =>
    obtain ⟨-,rfl⟩ := Task.assignSource ok
    rcases List.mem_append.mp mem with old | new
    · exact .inl old
    · obtain rfl := List.mem_singleton.mp new
      exact .inr ⟨_,command⟩
  | unassigned _ ok =>
    obtain ⟨-,rfl⟩ := Task.unassignSource ok
    exact .inl (List.mem_of_mem_filter mem)

theorem effectAssignees (effect : Effect intl s r t reply next) : ∀ m,
    (m ∈ reply.task.assignees ∨ ∃ successor, reply.successor = some successor ∧ m ∈ successor.assignees) →
      m ∈ t.assignees ∨ ∃ id, r.command = .assignTask id m := by
  intro m
  cases effect with
  | kept =>
    rintro (mem | ⟨_,none_,-⟩)
    · exact .inl mem
    · cases none_
  | moved move =>
    rintro (mem | ⟨_,none_,-⟩)
    · exact movedAssignees move m mem
    · cases none_
  | handed move =>
    rintro (mem | ⟨_,is,mem⟩)
    · exact movedAssignees move m mem
    · cases is
      exact movedAssignees move m mem

theorem handleAssignees (existing : ∀ params, r.command ≠ .createTask params)
    (ok : (handle intl s r).1 = .ok (.ok reply)) : ∀ m,
    (m ∈ reply.task.assignees ∨ ∃ successor, reply.successor = some successor ∧ m ∈ successor.assignees) →
      m ∈ r.visible ∨ ∃ id, r.command = .assignTask id m := by
  have did : Did intl s (.member r) _ _ := memberDid rfl
  rw [memberWrite,ok] at did
  generalize (handle intl s r).2 = next at did
  cases did with
  | created command => exact absurd command (existing _)
  | refused no => exact absurd rfl (no reply)
  | worked _ _ sees effect _ =>
    intro m mem
    exact (effectAssignees effect m mem).imp (visibleAssignees sees m) id

end
end FamilyPlatform.Tasks
