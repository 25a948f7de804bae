import FamilyPlatform.Lib.TwoRuns
import FamilyPlatform.Tasks.Queries
import FamilyPlatform.Tasks.Reached

/-! What a reader is told of tasks with an assignee out of their sight: from any two
stores that differ in such tasks only, the same, where none of them fails to load. -/
namespace FamilyPlatform.Tasks
open ZonedTime TwoRuns

inductive Operation where
  | listOpenTasks (input : OpenTasksInput) (pages : Nat)
  | listTaskHistory (input : TaskHistoryInput) (pages : Nat)
  | getTask (taskId : TaskId)
  | change (command : Command)
  deriving DecidableEq, Repr

inductive Response where
  | opened (pages : List (Except Thrown (Result (TaskPage OpenCursor))))
  | closed (pages : List (Except Thrown (Result (TaskPage ClosedCursor))))
  | task (found : Except Thrown (Result Task))
  | changed (outcome : Except Thrown (Result Reply))
  deriving DecidableEq

def Operation.taskId : Operation → Option TaskId
  | .listOpenTasks _ _ | .listTaskHistory _ _ => none
  | .getTask id => some id
  | .change command => command.taskId

def Reader.request (reader : Reader) (command : Command) : Request :=
  ⟨command,reader.familyId,reader.memberId,reader.visible,reader.familyMembers,reader.now,reader.transactionTime⟩

/- The identifier that is drawn does not depend on the tasks that are there. -/
def Store.drawing (s : Store) (drawn : Nat) : Store := { s with issued := drawn }

def answer (intl : Intl) (s : Store) (reader : Reader) (drawn : Nat) : Operation → Response
  | .listOpenTasks input pages =>
    .opened (walk (fun after => listOpenTasks intl s reader { input with after := after }) pages input.after)
  | .listTaskHistory input pages =>
    .closed (walk (fun after => listTaskHistory s reader { input with after := after }) pages input.after)
  | .getTask id => .task (getTask s reader id)
  | .change command => .changed (handle intl (s.drawing drawn) (reader.request command)).1

def afterwards (intl : Intl) (s : Store) (reader : Reader) (drawn : Nat) : Operation → Store
  | .listOpenTasks _ _ | .listTaskHistory _ _ | .getTask _ => s
  | .change command => (handle intl (s.drawing drawn) (reader.request command)).2

/- What there is of a task for a reader: nothing, if it is of another family or one of its
assignees is out of sight. -/
def Store.shown (s : Store) (reader : Reader) (id : TaskId) : Option (TaskRow × List FamilyMemberId) :=
  match s.tasks.find id with
  | none => none
  | some row =>
    if row.familyId = reader.familyId ∧ ∀ m ∈ s.assigneesOf id, m ∈ reader.visible then some (row,s.assigneesOf id)
    else none

def Agree (reader : Reader) (s s' : Store) : Prop := ∀ id, s.shown reader id = s'.shown reader id

def Store.Unreadable (s : Store) (reader : Reader) (id : TaskId) : Prop :=
  ∃ row text, s.tasks.find id = some row ∧ row.familyId = reader.familyId ∧ row.recurrenceRule = some text ∧
    ∀ rule, RecurrenceRule.parse text ≠ .ok rule

def Spares (intl : Intl) (s : Store) (reader : Reader) (drawn : Nat) (op : Operation) : Prop :=
  ∀ id, (s.tasks.find id).isSome = true → (∃ m ∈ s.assigneesOf id, m ∉ reader.visible) →
    (afterwards intl s reader drawn op).tasks.find id = s.tasks.find id ∧
      (afterwards intl s reader drawn op).assigneesOf id = s.assigneesOf id

section
variable {s s' : Store} {reader : Reader} {id : TaskId} {row : TaskRow}

theorem memAssignees {m : FamilyMemberId} :
    m ∈ s.assigneesOf id ↔ ∃ a ∈ s.assignments, a.taskId = id ∧ a.memberId = m := by
  simp only [Store.assigneesOf,List.mem_map,List.mem_insertionSort,List.mem_filter,decide_eq_true_eq,and_assoc]

theorem visibleAll {visible : List FamilyMemberId} :
    s.visibleOnly visible row = true ↔ ∀ m ∈ s.assigneesOf row.id, m ∈ visible := by
  simp only [Store.visibleOnly,List.all_eq_true,Bool.or_eq_true,decide_eq_true_eq,List.contains_eq_mem,memAssignees]
  constructor
  · rintro all m ⟨a,mem,own,rfl⟩
    exact (all a mem).resolve_left (fun other => other own)
  · intro all a mem
    by_cases own : a.taskId = row.id
    · exact .inr (all _ ⟨a,mem,own,rfl⟩)
    · exact .inl own

theorem assignedMember {m : FamilyMemberId} : s.assignedTo m row = true ↔ m ∈ s.assigneesOf row.id := by
  simp only [Store.assignedTo,List.any_eq_true,Bool.and_eq_true,decide_eq_true_eq,memAssignees]

theorem shownSource {assignees : List FamilyMemberId} (shown : s.shown reader id = some (row,assignees)) :
    s.tasks.find id = some row ∧ row.familyId = reader.familyId ∧ assignees = s.assigneesOf id ∧
      ∀ m ∈ assignees, m ∈ reader.visible := by
  unfold Store.shown at shown
  split at shown
  · cases shown
  · rename_i found
    split at shown
    · rename_i seen
      cases shown
      exact ⟨found,seen.1,rfl,seen.2⟩
    · cases shown

theorem shownOf (found : s.tasks.find id = some row) (family : row.familyId = reader.familyId)
    (seen : ∀ m ∈ s.assigneesOf id, m ∈ reader.visible) : s.shown reader id = some (row,s.assigneesOf id) := by
  simp only [Store.shown,found]
  exact if_pos ⟨family,seen⟩

theorem shownLock {assignees : List FamilyMemberId} (shown : s.shown reader id = some (row,assignees)) :
    s.lockById reader.familyId id = (toAggregate row assignees).map some := by
  obtain ⟨found,family,rfl,-⟩ := shownSource shown
  have same : (s.tasks.find id).filter (fun row => row.familyId = reader.familyId) = some row := by
    rw [found,Option.filter_some,if_pos (by simpa using family)]
  simp only [Store.lockById,same]

theorem unreadableLock (unreadable : s.Unreadable reader id) :
    s.lockById reader.familyId id = .error .unparsableRule := by
  obtain ⟨row,text,found,family,stored,refused⟩ := unreadable
  have same : (s.tasks.find id).filter (fun row => row.familyId = reader.familyId) = some row := by
    rw [found,Option.filter_some,if_pos (by simpa using family)]
  have rule : storedRule row = .error .unparsableRule := by
    simp only [storedRule,stored]
    cases read : RecurrenceRule.parse text with
    | error e => rfl
    | ok rule => exact absurd read (refused rule)
  simp only [Store.lockById,same,toAggregate,rule]
  rfl

theorem readableRule (there : s.tasks.find id = some row) (family : row.familyId = reader.familyId)
    (readable : ¬ s.Unreadable reader id) : ∃ rule, storedRule row = .ok rule := by
  unfold storedRule
  cases stored : row.recurrenceRule with
  | none => exact ⟨none,rfl⟩
  | some text =>
    cases read : RecurrenceRule.parse text with
    | ok rule => exact ⟨some rule,by simp only [read]⟩
    | error e =>
      refine absurd ⟨row,text,there,family,stored,fun rule is => ?_⟩ readable
      rw [read] at is
      cases is

theorem unshownLock {intl : Intl} (standing : s.Standing intl) (unshown : s.shown reader id = none)
    (readable : ¬ s.Unreadable reader id) : s.lockById reader.familyId id = .ok none ∨
      ∃ t, s.lockById reader.familyId id = .ok (some t) ∧ t.assignees.any (· ∉ reader.visible) = true := by
  cases found : (s.tasks.find id).filter (fun row => row.familyId = reader.familyId) with
  | none => exact .inl (by simp only [Store.lockById,found])
  | some row =>
    obtain ⟨there,family⟩ := Option.filter_eq_some_iff.mp found
    have family : row.familyId = reader.familyId := by simpa using family
    obtain ⟨t₀,made⟩ := standing.recorded id row there
    obtain ⟨⟨due,dated⟩,state,stated⟩ := recordedReads made
    obtain ⟨rule,stored⟩ := readableRule there family readable
    obtain ⟨t,read⟩ : ∃ t, toAggregate row (s.assigneesOf id) = .ok t := by
      simp only [toAggregate,stored,dated,stated,orThrow,bind,Except.bind]
      exact ⟨_,rfl⟩
    have assignees := (loadedSource read).assignees
    refine .inr ⟨t,by simp only [Store.lockById,found,read]; rfl,?_⟩
    rw [assignees]
    by_contra seen
    have seen : ∀ m ∈ s.assigneesOf id, m ∈ reader.visible := by simpa using seen
    rw [shownOf there family seen] at unshown
    cases unshown

end

structure Twin (known : List TaskId) (s s' : Store) : Prop where
  row : ∀ id ∈ known, s.tasks.find id = s'.tasks.find id
  assignees : ∀ id ∈ known, ∀ m, m ∈ s.assigneesOf id ↔ m ∈ s'.assigneesOf id
  issued : s.issued = s'.issued
  next : s.issued ∈ known

section
variable {intl : Intl} {known : List TaskId} {s s' : Store} {t : Task}

theorem permitAlike (others others' : List TaskRow) (row : TaskRow) :
    Alike Thrown.Expected (fun _ _ => True) (permit others row) (permit others' row) := by
  unfold permit
  cases failedCheck row with
  | some constraint => exact .error _
  | none =>
    cases violatedIndex others row with
    | some constraint => exact .left (by simp [Thrown.Expected])
    | none =>
      cases violatedIndex others' row with
      | some constraint => exact .right (by simp [Thrown.Expected])
      | none => exact .ok trivial

theorem sameColumns : Alike Thrown.Expected (· = ·) (columns intl t) (columns intl t) := .same _ (fun _ _ => rfl)

theorem saveTwin (twin : Twin known s s') (own : t.id ∈ known) :
    Alike Thrown.Expected (Twin known) (s.save intl t) (s'.save intl t) := by
  refine sameColumns.bind (fun written _ same => ?_)
  subst same
  rw [← twin.row _ own]
  refine Alike.bind (p := (· = ·)) (.same _ (fun _ _ => rfl)) (fun row _ same => ?_)
  subst same
  refine (permitAlike _ _ _).bind (fun _ _ _ => .ok ⟨fun id mem => ?_,twin.assignees,twin.issued,twin.next⟩)
  simp only [Table.findUpdate,twin.row id mem,twin.row _ own]

theorem insertTwin {familyId : FamilyId} (twin : Twin known s s')
    (predecessor : ∀ p, t.predecessorId = some p → p ∈ known) :
    Alike Thrown.Expected (Twin known) (s.insert intl familyId t) (s'.insert intl familyId t) := by
  refine sameColumns.bind (fun written _ same => ?_)
  subst same
  refine (permitAlike _ _ _).bind (fun _ _ _ => ?_)
  have there : t.predecessorId.all (fun p => (s.tasks.find p).isSome) =
      t.predecessorId.all (fun p => (s'.tasks.find p).isSome) := by
    cases named : t.predecessorId with
    | none => rfl
    | some p => simp only [Option.all_some,twin.row p (predecessor p named)]
  rw [← there]
  split
  · split
    · rename_i tasks inserted
      split
      · rename_i tasks' inserted'
        refine .ok ⟨fun id mem => ?_,twin.assignees,twin.issued,twin.next⟩
        simp only [Table.findInsert inserted,Table.findInsert inserted',twin.row id mem]
      · exact .right (by simp [Thrown.Expected])
    · exact .left (by simp [Thrown.Expected])
  · exact .error _

theorem handOverTwin {familyId : FamilyId} {predecessor : Task} (twin : Twin known s s')
    (old : predecessor.id ∈ known) (named : t.predecessorId = some predecessor.id) :
    Alike Thrown.Expected (Twin known) (s.handOverHead intl familyId predecessor t)
      (s'.handOverHead intl familyId predecessor t) := by
  have inserted : ∀ saved saved', Twin known saved saved' →
      Alike Thrown.Expected (Twin known) (saved.insert intl familyId t) (saved'.insert intl familyId t) := by
    intro saved saved' twin'
    refine insertTwin twin' (fun p is => ?_)
    obtain rfl := Option.some.inj (named.symm.trans is)
    exact old
  have handed : Alike Thrown.Expected (Twin known) (s.save intl predecessor >>= fun saved => saved.insert intl familyId t)
      (s'.save intl predecessor >>= fun saved => saved.insert intl familyId t) := (saveTwin twin old).bind inserted
  unfold Store.handOverHead
  split
  · exact .error _
  · simp only
    generalize s.save intl predecessor >>= (fun saved => saved.insert intl familyId t) = x at handed ⊢
    generalize s'.save intl predecessor >>= (fun saved => saved.insert intl familyId t) = y at handed ⊢
    cases handed with
    | ok holds => exact .ok holds
    | error e => cases e <;> exact .error _
    | @left e _ excluded => cases e <;> exact .left excluded
    | @right _ e excluded => cases e <;> exact .right excluded

theorem addTwin (familyMembers : List FamilyMemberId) (time : Instant) (members : List FamilyMemberId)
    {taskId : TaskId} (twin : Twin known s s') (own : taskId ∈ known) :
    (∃ next next', s.addAssignments familyMembers time taskId members = .ok next ∧
      s'.addAssignments familyMembers time taskId members = .ok next' ∧ Twin known next next') ∨
    (s.addAssignments familyMembers time taskId members = .error .assigneeNotInFamily ∧
      s'.addAssignments familyMembers time taskId members = .error .assigneeNotInFamily) := by
  have free : ∀ (u : Store) m, u.assignments.all (fun a => !(a.taskId = taskId ∧ a.memberId = m)) = true ↔
      m ∉ u.assigneesOf taskId := by
    intro u m
    simp [memAssignees,imp_iff_not_or]
  have fresh : members.dedup.filter (fun m => s.assignments.all (fun a => !(a.taskId = taskId ∧ a.memberId = m))) =
      members.dedup.filter (fun m => s'.assignments.all (fun a => !(a.taskId = taskId ∧ a.memberId = m))) := by
    refine List.filter_congr (fun m _ => ?_)
    rw [Bool.eq_iff_iff,free,free,twin.assignees taskId own]
  have added : ∀ (u : Store) (new : List FamilyMemberId) id m,
      m ∈ ({ u with assignments := u.assignments ++ new.map (fun m => ⟨taskId,m,time⟩) } : Store).assigneesOf id ↔
        m ∈ u.assigneesOf id ∨ (taskId = id ∧ m ∈ new) := by
    intro u new id m
    simp only [memAssignees,List.mem_append,List.mem_map,or_and_right,exists_or]
    refine or_congr_right ⟨?_,?_⟩
    · rintro ⟨_,⟨m',mem,rfl⟩,own,rfl⟩
      exact ⟨own,mem⟩
    · rintro ⟨own,mem⟩
      exact ⟨_,⟨m,mem,rfl⟩,own,rfl⟩
  simp only [Store.addAssignments,fresh]
  split
  · refine .inl ⟨_,_,rfl,rfl,twin.row,fun id mem m => ?_,twin.issued,twin.next⟩
    rw [added,added,twin.assignees id mem]
  · exact .inr ⟨rfl,rfl⟩

theorem removeTwin {taskId : TaskId} {member : FamilyMemberId} (twin : Twin known s s') :
    Twin known (s.removeAssignment taskId member) (s'.removeAssignment taskId member) := by
  have left : ∀ (u : Store) id m, m ∈ (u.removeAssignment taskId member).assigneesOf id ↔
      m ∈ u.assigneesOf id ∧ ¬ (id = taskId ∧ m = member) := by
    intro u id m
    simp only [memAssignees,Store.removeAssignment,List.mem_filter]
    constructor
    · rintro ⟨a,⟨mem,kept⟩,rfl,rfl⟩
      exact ⟨⟨a,mem,rfl,rfl⟩,by simpa [imp_iff_not_or] using kept⟩
    · rintro ⟨⟨a,mem,rfl,rfl⟩,kept⟩
      exact ⟨a,⟨mem,by simpa [imp_iff_not_or] using kept⟩,rfl,rfl⟩
  refine ⟨twin.row,fun id mem m => ?_,twin.issued,twin.next⟩
  rw [left,left,twin.assignees id mem]

def SameReply (x y : Result (Reply × Store)) : Prop := x.map Prod.fst = y.map Prod.fst

theorem saveAndTwin {moved : Result Task} {after after' : Store → Task → Answer} (twin : Twin known s s')
    (own : ∀ t, moved = .ok t → t.id ∈ known)
    (alike : ∀ t saved saved', moved = .ok t → Twin known saved saved' →
      Alike Thrown.Expected SameReply (after saved t) (after' saved' t)) :
    Alike Thrown.Expected SameReply (saveAnd intl s moved after) (saveAnd intl s' moved after') := by
  cases moved with
  | error e => exact .ok rfl
  | ok t => exact (saveTwin twin (own t rfl)).bind (fun saved saved' twin' => alike t saved saved' rfl twin')

theorem spawnTwin {r : Request} (twin : Twin known s s') (own : t.id ∈ known) :
    Alike Thrown.Expected SameReply (spawnSuccessor intl s r t) (spawnSuccessor intl s' r t) := by
  unfold spawnSuccessor
  refine Alike.bind (p := (· = ·)) (.same _ (fun _ _ => rfl)) (fun found _ same => ?_)
  subst same
  cases found with
  | error e => exact .ok rfl
  | ok due =>
    cases due with
    | none => exact .ok rfl
    | some due =>
      rw [← twin.issued]
      have relinquished : t.relinquishHead.id ∈ known := own
      have named : (Task.successorOf s.issued t due r.memberId).predecessorId = some t.relinquishHead.id := rfl
      refine (handOverTwin twin relinquished named).bind (fun handed handed' twin' => ?_)
      rcases addTwin r.familyMembers r.transactionTime (Task.successorOf s.issued t due r.memberId).assignees twin' twin.next with
        ⟨last,last',added,added',-⟩ | ⟨refused,refused'⟩
      · simp only [show (Task.successorOf s.issued t due r.memberId).id = s.issued from rfl,added,added']
        exact .ok rfl
      · simp only [show (Task.successorOf s.issued t due r.memberId).id = s.issued from rfl,refused,refused']
        exact .error _

theorem updateTwin {r : Request} {taskId : TaskId} {version : Nat} {patch : TaskPatch} (twin : Twin known s s')
    (own : t.id ∈ known) (command : r.command = .updateTask taskId version patch) :
    Alike Thrown.Expected SameReply (updateLocked intl s patch t) (updateLocked intl s' patch t) := by
  simp only [updateLocked,← twin.issued]
  cases updated : t.update intl patch s.issued with
  | none => exact .error _
  | some result =>
    cases result with
    | error e => exact .ok rfl
    | ok edit =>
      obtain ⟨t',changed⟩ := edit
      simp only [orThrow,bind,Except.bind]
      split
      · exact .ok rfl
      · rename_i some_
        refine saveAndTwin twin (fun t is => ?_) (fun _ _ _ _ _ => .ok rfl)
        cases is
        have move : Moved intl r s.issued _ _ := .updated command updated some_
        exact (movedKeeps move).1 ▸ own

theorem assignTwin {r : Request} {member : FamilyMemberId} (twin : Twin known s s') (own : t.id ∈ known)
    (command : r.command = .assignTask t.id member) :
    Alike Thrown.Expected SameReply (assignLocked intl s r t.id member t) (assignLocked intl s' r t.id member t) := by
  simp only [assignLocked]
  cases assigned : t.assign member with
  | error e => exact .ok rfl
  | ok result =>
    cases result with
    | none => exact .ok rfl
    | some t' =>
      rcases addTwin r.familyMembers r.transactionTime [member] twin own with
        ⟨added,added',there,there',twin'⟩ | ⟨refused,refused'⟩
      · simp only [there,there']
        refine saveAndTwin twin' (fun t is => ?_) (fun _ _ _ _ _ => .ok rfl)
        cases is
        have move : Moved intl r s.issued _ _ := .assigned command assigned
        exact (movedKeeps move).1 ▸ own
      · simp only [refused,refused']
        exact .ok rfl

theorem unassignTwin {r : Request} {taskId : TaskId} {member : FamilyMemberId} (twin : Twin known s s')
    (own : t.id ∈ known) (command : r.command = .unassignTask taskId member) :
    Alike Thrown.Expected SameReply (unassignLocked intl s taskId member t) (unassignLocked intl s' taskId member t) := by
  simp only [unassignLocked]
  cases unassigned : t.unassign member with
  | error e => exact .ok rfl
  | ok result =>
    cases result with
    | none => exact .ok rfl
    | some t' =>
      refine saveAndTwin (removeTwin twin) (fun t is => ?_) (fun _ _ _ _ _ => .ok rfl)
      cases is
      have move : Moved intl r s.issued _ _ := .unassigned command unassigned
      exact (movedKeeps move).1 ▸ own

theorem lockedTwin {r : Request} (twin : Twin known s s') (own : t.id ∈ known)
    (id : r.command.taskId = some t.id) :
    Alike Thrown.Expected SameReply (lockedWork intl s r t) (lockedWork intl s' r t) := by
  have kept : ∀ {t'}, Moved intl r s.issued t t' → t'.id ∈ known := fun move => (movedKeeps move).1 ▸ own
  unfold lockedWork
  cases command : r.command with
  | createTask params =>
    rw [command] at id
    cases id
  | updateTask taskId version patch => exact updateTwin twin own command
  | completeTask taskId version =>
    exact saveAndTwin twin (fun t' is => kept (.completed command is))
      (fun t' saved saved' is twin' => spawnTwin twin' (kept (.completed command is)))
  | cancelTask taskId version scope =>
    refine saveAndTwin twin (fun t' is => kept (.cancelled command is)) (fun t' saved saved' is twin' => ?_)
    split
    · exact .ok rfl
    · exact spawnTwin twin' (kept (.cancelled command is))
  | reopenTask taskId version =>
    exact saveAndTwin twin (fun t' is => kept (.reopened command is)) (fun _ _ _ _ _ => .ok rfl)
  | assignTask taskId assignee =>
    rw [command] at id
    cases id
    exact assignTwin twin own command
  | unassignTask taskId assignee => exact unassignTwin twin own command

theorem createTwin {r : Request} {params : NewTask} (twin : Twin known s s') :
    Alike Thrown.Expected SameReply (createTask intl s r params) (createTask intl s' r params) := by
  simp only [createTask,← twin.issued]
  cases created : Task.create params s.issued r.familyId s.issued r.memberId with
  | error e => exact .ok rfl
  | ok t =>
    obtain ⟨id,-,-,made⟩ := Task.createSource created
    refine (insertTwin twin (fun p is => ?_)).bind (fun inserted inserted' twin' => ?_)
    · rw [made.predecessor] at is
      cases is
    · rcases addTwin r.familyMembers r.transactionTime t.assignees twin'
        (id ▸ twin.next) with ⟨last,last',added,added',-⟩ | ⟨refused,refused'⟩
      · simp only [added,added']
        exact .ok rfl
      · simp only [refused,refused']
        exact .ok rfl

theorem handleAnswer (intl : Intl) (s : Store) (r : Request) :
    (handle intl s r).1 = (perform intl s r).map (fun result => result.map Prod.fst) := by
  unfold handle
  cases perform intl s r with
  | error e => rfl
  | ok result => cases result <;> rfl

theorem performView {r : Request} {id : TaskId} (key : r.command.taskId = some id) :
    perform intl s r = (do
      match visibleTask r (← s.lockById r.familyId id) with
      | .error e => return .error e
      | .ok task => lockedWork intl s r task) := by
  rw [performRead]
  cases command : r.command with
  | createTask params =>
    rw [command] at key
    cases key
  | _ =>
    simp only [performLocked,readLocked,Work.taskId,Work.familyId,command]
    rw [command] at key
    cases key
    rfl

theorem performHidden {r : Request} {id : TaskId} (key : r.command.taskId = some id)
    (view : s.lockById r.familyId id = .ok none ∨
      ∃ t, s.lockById r.familyId id = .ok (some t) ∧ t.assignees.any (· ∉ r.visible) = true) :
    perform intl s r = .ok (.error .notFound) := by
  rw [performView key]
  rcases view with none_ | ⟨t,some_,hidden⟩
  · rw [none_]
    rfl
  · rw [some_]
    simp only [bind,Except.bind,visibleTask,if_pos hidden]
    rfl

end

section
variable {intl : Intl} {s s' : Store} {reader : Reader} {drawn : Nat}

theorem drawnAbsent (standing : s.Standing intl) (fresh : s.issued ≤ drawn) :
    s.tasks.find drawn = none ∧ ∀ m, m ∉ s.assigneesOf drawn := by
  have absent : s.tasks.find drawn = none := by
    cases found : s.tasks.find drawn with
    | none => rfl
    | some row =>
      obtain ⟨mem,id⟩ := Table.findSource found
      have less := standing.chained.ids row.link (List.mem_map_of_mem mem)
      simp only [TaskRow.link,id] at less
      omega
  refine ⟨absent,fun m mem => ?_⟩
  obtain ⟨a,there,own,-⟩ := memAssignees.mp mem
  have referred := standing.assigned a there
  rw [own,absent] at referred
  cases referred

theorem agreeTwin (reader : Reader) (standing : s.Standing intl) (standing' : s'.Standing intl) (fresh : s.issued ≤ drawn)
    (fresh' : s'.issued ≤ drawn) {known : List TaskId}
    (shown : ∀ id ∈ known, ∃ row assignees, s.shown reader id = some (row,assignees) ∧
      s'.shown reader id = some (row,assignees)) : Twin (drawn :: known) (s.drawing drawn) (s'.drawing drawn) := by
  obtain ⟨absent,nobody⟩ := drawnAbsent standing fresh
  obtain ⟨absent',nobody'⟩ := drawnAbsent standing' fresh'
  refine ⟨?_,?_,rfl,List.mem_cons_self⟩
  · refine List.forall_mem_cons.mpr ⟨absent.trans absent'.symm,fun id mem => ?_⟩
    obtain ⟨row,assignees,there,there'⟩ := shown id mem
    exact (shownSource there).1.trans (shownSource there').1.symm
  · refine List.forall_mem_cons.mpr ⟨fun m => iff_of_false (nobody m) (nobody' m),fun id mem m => ?_⟩
    obtain ⟨row,assignees,there,there'⟩ := shown id mem
    have same : s.assigneesOf id = s'.assigneesOf id := (shownSource there).2.2.1.symm.trans (shownSource there').2.2.1
    exact same ▸ Iff.rfl

theorem drawingStanding (standing : s.Standing intl) (fresh : s.issued ≤ drawn) : (s.drawing drawn).Standing intl :=
  ⟨standing.chained.later fresh,standing.recorded,standing.assigned⟩

theorem performExpected (standing : s.Standing intl) {r : Request} {e : Thrown} (thrown : perform intl s r = .error e) :
    e.Expected := by
  have meets : Meets (Leaves s.issued (Named s r)) (perform intl s r) := meetsPerform standing.chained
  rw [thrown] at meets
  exact meets

section
variable {id : TaskId} {command : Command} (key : command.taskId = some id)
include key

theorem performShown {row : TaskRow} {assignees : List FamilyMemberId} (shown : s.shown reader id = some (row,assignees))
    (shown' : s'.shown reader id = some (row,assignees))
    (twin : Twin [drawn,id] (s.drawing drawn) (s'.drawing drawn)) :
    Alike Thrown.Expected SameReply (perform intl (s.drawing drawn) (reader.request command))
      (perform intl (s'.drawing drawn) (reader.request command)) := by
  have asks : (reader.request command).command.taskId = some id := key
  rw [performView asks,performView asks]
  have view : (s.drawing drawn).lockById reader.familyId id = (toAggregate row assignees).map some := shownLock shown
  have view' : (s'.drawing drawn).lockById reader.familyId id = (toAggregate row assignees).map some :=
    shownLock shown'
  rw [show (reader.request command).familyId = reader.familyId from rfl,view,view']
  cases read : toAggregate row assignees with
  | error e => exact .error e
  | ok t =>
    simp only [Except.map,bind,Except.bind]
    cases sees : visibleTask (reader.request command) (some t) with
    | error e => exact .ok rfl
    | ok t' =>
      obtain rfl := Option.some.inj (visibleSource sees)
      have own : t.id = id := (loadedSource read).id.trans (Table.findSource (shownSource shown).1).2
      exact lockedTwin twin (own ▸ by simp) (own ▸ asks)

theorem performUnshown (standing : s.Standing intl) (standing' : s'.Standing intl) (shown : s.shown reader id = none)
    (shown' : s'.shown reader id = none) (readable : s.Unreadable reader id ↔ s'.Unreadable reader id) :
    perform intl (s.drawing drawn) (reader.request command) =
      perform intl (s'.drawing drawn) (reader.request command) := by
  have asks : (reader.request command).command.taskId = some id := key
  by_cases unreadable : s.Unreadable reader id
  · have view : (s.drawing drawn).lockById reader.familyId id = .error .unparsableRule := unreadableLock unreadable
    have view' : (s'.drawing drawn).lockById reader.familyId id = .error .unparsableRule :=
      unreadableLock (readable.mp unreadable)
    rw [performView asks,performView asks,show (reader.request command).familyId = reader.familyId from rfl,view,view']
    rfl
  · have hidden := unshownLock standing shown unreadable
    have hidden' := unshownLock standing' shown' (fun is => unreadable (readable.mpr is))
    rw [@performHidden _ (s.drawing drawn) _ _ asks hidden,@performHidden _ (s'.drawing drawn) _ _ asks hidden']

end

theorem handleAlike (standing : s.Standing intl) (standing' : s'.Standing intl) (agree : Agree reader s s')
    (fresh : s.issued ≤ drawn) (fresh' : s'.issued ≤ drawn) (command : Command)
    (readable : ∀ id, command.taskId = some id → (s.Unreadable reader id ↔ s'.Unreadable reader id)) :
    (handle intl (s.drawing drawn) (reader.request command)).1 =
      (handle intl (s'.drawing drawn) (reader.request command)).1 := by
  rw [handleAnswer,handleAnswer]
  have settled : Alike Thrown.Expected SameReply (perform intl (s.drawing drawn) (reader.request command))
      (perform intl (s'.drawing drawn) (reader.request command)) →
      (perform intl (s.drawing drawn) (reader.request command)).map (fun result => result.map Prod.fst) =
        (perform intl (s'.drawing drawn) (reader.request command)).map (fun result => result.map Prod.fst) := by
    intro alike
    refine alike.settled (fun _ _ same => same) (fun _ => ?_) (fun _ => ?_)
    · exact performExpected (drawingStanding standing fresh)
    · exact performExpected (drawingStanding standing' fresh')
  cases key : command.taskId with
  | none =>
    have twin : Twin [drawn] (s.drawing drawn) (s'.drawing drawn) :=
      agreeTwin reader standing standing' fresh fresh' (by simp)
    cases command with
    | createTask params => exact settled (createTwin twin)
    | _ => cases key
  | some id =>
    cases shown : s.shown reader id with
    | some pair =>
      obtain ⟨row,assignees⟩ := pair
      have shown' : s'.shown reader id = some (row,assignees) := agree id ▸ shown
      refine settled (performShown key shown shown' ?_)
      refine agreeTwin reader standing standing' fresh fresh' (fun id' mem => ?_)
      obtain rfl := List.mem_singleton.mp mem
      exact ⟨row,assignees,shown,shown'⟩
    | none => rw [performUnshown key standing standing' shown (agree id ▸ shown) (readable id key)]

theorem getHidden {id : TaskId} (view : s.lockById reader.familyId id = .ok none ∨
    ∃ t, s.lockById reader.familyId id = .ok (some t) ∧ t.assignees.any (· ∉ reader.visible) = true) :
    getTask s reader id = .ok (.error .notFound) := by
  rcases view with none_ | ⟨t,some_,hidden⟩
  · simp only [getTask,Store.findById,none_]
    rfl
  · simp only [getTask,Store.findById,some_,bind,Except.bind,if_pos hidden]
    rfl

theorem getAlike (standing : s.Standing intl) (standing' : s'.Standing intl) (agree : Agree reader s s') {id : TaskId}
    (readable : s.Unreadable reader id ↔ s'.Unreadable reader id) : getTask s reader id = getTask s' reader id := by
  cases shown : s.shown reader id with
  | some pair =>
    have shown' : s'.shown reader id = some pair := agree id ▸ shown
    simp only [getTask,Store.findById,shownLock shown,shownLock shown']
  | none =>
    have shown' : s'.shown reader id = none := agree id ▸ shown
    by_cases unreadable : s.Unreadable reader id
    · simp only [getTask,Store.findById,unreadableLock unreadable,unreadableLock (readable.mp unreadable)]
    · rw [getHidden (unshownLock standing shown unreadable),
        getHidden (unshownLock standing' shown' (fun is => unreadable (readable.mpr is)))]

theorem keysetTotal (x y : Int) (a b : Nat) : (x < y ∨ (x = y ∧ a ≤ b)) ∨ (y < x ∨ (y = x ∧ b ≤ a)) := by omega

theorem keysetTrans {x y z : Int} {a b c : Nat} (ab : x < y ∨ (x = y ∧ a ≤ b)) (bc : y < z ∨ (y = z ∧ b ≤ c)) :
    x < z ∨ (x = z ∧ a ≤ c) := by omega

theorem keysetApart {x y : Int} {a b : Nat} (ab : x < y ∨ (x = y ∧ a ≤ b)) (ba : y < x ∨ (y = x ∧ b ≤ a)) : a = b := by
  omega

instance : Std.Total openOrder := ⟨fun a b => by
  unfold openOrder
  cases a.dueAt with
  | none =>
    cases b.dueAt with
    | none => exact Nat.le_total a.id b.id
    | some y => exact .inr trivial
  | some x =>
    cases b.dueAt with
    | none => exact .inl trivial
    | some y => exact keysetTotal x y a.id b.id⟩

instance : IsTrans TaskRow openOrder := ⟨fun a b c ab bc => by
  unfold openOrder at ab bc ⊢
  cases first : a.dueAt <;> cases second : b.dueAt <;> cases third : c.dueAt <;> simp only [first,second,third] at ab bc ⊢
  · exact Nat.le_trans ab bc
  · exact keysetTrans ab bc⟩

theorem openOrderApart (a b : TaskRow) (ab : openOrder a b) (ba : openOrder b a) : a.id = b.id := by
  unfold openOrder at ab ba
  cases first : a.dueAt <;> cases second : b.dueAt <;> simp only [first,second] at ab ba
  · exact Nat.le_antisymm ab ba
  · exact keysetApart ab ba

instance : Std.Total closedOrder := ⟨fun a b =>
  (keysetTotal (b.closedAt.getD 0) (a.closedAt.getD 0) b.id a.id).imp
    (Or.imp_right (And.imp_left Eq.symm)) (Or.imp_right (And.imp_left Eq.symm))⟩

instance : IsTrans TaskRow closedOrder := ⟨fun _ _ _ ab bc =>
  (keysetTrans (bc.imp_right (And.imp_left Eq.symm)) (ab.imp_right (And.imp_left Eq.symm))).imp_right
    (And.imp_left Eq.symm)⟩

theorem closedOrderApart (a b : TaskRow) (ab : closedOrder a b) (ba : closedOrder b a) : a.id = b.id :=
  keysetApart (ba.imp_right (And.imp_left Eq.symm)) (ab.imp_right (And.imp_left Eq.symm))

theorem sharedRow (agree : Agree reader s s') {row : TaskRow} (mem : row ∈ s.tasks.rows)
    (family : row.familyId = reader.familyId) (seen : s.visibleOnly reader.visible row = true) :
    row ∈ s'.tasks.rows ∧ s'.assigneesOf row.id = s.assigneesOf row.id ∧
      s'.findById reader.familyId row.id = s.findById reader.familyId row.id := by
  have shown := shownOf (Table.findMember mem) family (visibleAll.mp seen)
  have shown' : s'.shown reader row.id = some (row,s.assigneesOf row.id) := agree row.id ▸ shown
  obtain ⟨found,-,same,-⟩ := shownSource shown'
  refine ⟨(Table.findSource found).1,same.symm,?_⟩
  simp only [Store.findById,shownLock shown,shownLock shown']

theorem selectsOpenSame {row : TaskRow} {q : OpenListQuery} (same : s'.assigneesOf row.id = s.assigneesOf row.id) :
    s'.selectsOpen reader.familyId q row = s.selectsOpen reader.familyId q row := by
  have visible : s'.visibleOnly q.visibleMemberIds row = s.visibleOnly q.visibleMemberIds row := by
    rw [Bool.eq_iff_iff,visibleAll,visibleAll,same]
  have assigned : ∀ m, s'.assignedTo m row = s.assignedTo m row := by
    intro m
    rw [Bool.eq_iff_iff,assignedMember,assignedMember,same]
  simp only [Store.selectsOpen,visible,assigned]

theorem selectsClosedSame {row : TaskRow} {q : ClosedListQuery} (same : s'.assigneesOf row.id = s.assigneesOf row.id) :
    s'.selectsClosed reader.familyId q row = s.selectsClosed reader.familyId q row := by
  have visible : s'.visibleOnly q.visibleMemberIds row = s.visibleOnly q.visibleMemberIds row := by
    rw [Bool.eq_iff_iff,visibleAll,visibleAll,same]
  simp only [Store.selectsClosed,visible]

theorem loadSame {ids : List TaskId}
    (same : ∀ id ∈ ids, s'.findById reader.familyId id = s.findById reader.familyId id) :
    s'.loadInOrder reader.familyId ids = s.loadInOrder reader.familyId ids := by
  have found : ids.mapM (fun id => s'.findById reader.familyId id) = ids.mapM (fun id => s.findById reader.familyId id) := by
    induction ids with
    | nil => rfl
    | cons id rest ih =>
      rw [List.mapM_cons,List.mapM_cons,same id List.mem_cons_self,
        ih (fun other mem => same other (List.mem_cons_of_mem id mem))]
  simp only [Store.loadInOrder,found]

theorem selectionAlike {p p' : TaskRow → Bool} {le : TaskRow → TaskRow → Prop} [DecidableRel le] [Std.Total le]
    [IsTrans TaskRow le] (apart : ∀ a b, le a b → le b a → a.id = b.id) (agree : Agree reader s s')
    (seen : ∀ row, p row = true → row.familyId = reader.familyId ∧ s.visibleOnly reader.visible row = true)
    (seen' : ∀ row, p' row = true → row.familyId = reader.familyId ∧ s'.visibleOnly reader.visible row = true)
    (same : ∀ row : TaskRow, s'.assigneesOf row.id = s.assigneesOf row.id → p' row = p row) (limit : Nat) :
    s'.loadInOrder reader.familyId ((((s'.tasks.rows.filter p').insertionSort le).take limit).map TaskRow.id) =
      s.loadInOrder reader.familyId ((((s.tasks.rows.filter p).insertionSort le).take limit).map TaskRow.id) := by
  have rows : (s'.tasks.rows.filter p').insertionSort le = (s.tasks.rows.filter p).insertionSort le := by
    refine Table.selectedSame (fun a b _ _ => apart a b) (fun row => ⟨?_,?_⟩)
    · rintro ⟨mem,selected⟩
      obtain ⟨family,visible⟩ := seen' row selected
      obtain ⟨mem',assignees,-⟩ := sharedRow (fun id => (agree id).symm) mem family visible
      exact ⟨mem',same row assignees.symm ▸ selected⟩
    · rintro ⟨mem,selected⟩
      obtain ⟨family,visible⟩ := seen row selected
      obtain ⟨mem',assignees,-⟩ := sharedRow agree mem family visible
      exact ⟨mem',(same row assignees).trans selected⟩
  rw [rows]
  refine loadSame (fun id mem => ?_)
  obtain ⟨row,taken,rfl⟩ := List.mem_map.mp mem
  obtain ⟨there,selected⟩ := List.mem_filter.mp ((List.mem_insertionSort le).mp (List.mem_of_mem_take taken))
  obtain ⟨family,visible⟩ := seen row selected
  exact (sharedRow agree there family visible).2.2

theorem listOpenAlike (agree : Agree reader s s') (input : OpenTasksInput) :
    listOpenTasks intl s' reader input = listOpenTasks intl s reader input := by
  have rows : ∀ q : OpenListQuery, q.visibleMemberIds = reader.visible →
      s'.listOpen reader.familyId q = s.listOpen reader.familyId q := by
    intro q readable
    refine selectionAlike openOrderApart agree (fun row selected => ?_) (fun row selected => ?_)
      (fun row same => selectsOpenSame same) q.limit
    all_goals
      simp only [Store.selectsOpen,Bool.and_eq_true,decide_eq_true_eq,readable] at selected
      exact ⟨selected.1.1.1.1.1.1.1,selected.1.1.1.1.1.2⟩
  unfold listOpenTasks
  split
  · rfl
  · dsimp only
    rw [rows]
    rfl

theorem listClosedAlike (agree : Agree reader s s') (input : TaskHistoryInput) :
    listTaskHistory s' reader input = listTaskHistory s reader input := by
  have rows : ∀ q : ClosedListQuery, q.visibleMemberIds = reader.visible →
      s'.listClosed reader.familyId q = s.listClosed reader.familyId q := by
    intro q readable
    refine selectionAlike closedOrderApart agree (fun row selected => ?_) (fun row selected => ?_)
      (fun row same => selectsClosedSame same) q.limit
    all_goals
      simp only [Store.selectsClosed,Bool.and_eq_true,decide_eq_true_eq,readable] at selected
      exact ⟨selected.1.1.1.1.1,selected.1.2⟩
  unfold listTaskHistory
  split
  · rfl
  · dsimp only
    rw [rows]
    rfl

theorem unreadableApart (standing' : s'.Standing intl) (agree : Agree reader s s')
    {op : Operation} {id : TaskId} (key : op.taskId = some id) (unreadable : s.Unreadable reader id)
    (readable : ¬ s'.Unreadable reader id) : answer intl s reader drawn op ≠ answer intl s' reader drawn op := by
  obtain ⟨row,text,found,family,stored,refused⟩ := unreadable
  have shown' : s'.shown reader id = none := by
    cases shown : s'.shown reader id with
    | none => rfl
    | some pair =>
      obtain ⟨row',assignees⟩ := pair
      have same := (shownSource ((agree id).trans shown)).1
      obtain rfl := Option.some.inj (found.symm.trans same)
      exact absurd ⟨row,text,(shownSource shown).1,family,stored,refused⟩ readable
  have view := unreadableLock ⟨row,text,found,family,stored,refused⟩
  have hidden := unshownLock standing' shown' readable
  cases op with
  | listOpenTasks | listTaskHistory => cases key
  | getTask taskId =>
    obtain rfl := Option.some.inj key
    have thrown : getTask s reader taskId = .error .unparsableRule := by
      simp only [getTask,Store.findById,view]
      rfl
    simp only [answer,thrown,getHidden hidden,ne_eq,Response.task.injEq,reduceCtorEq,not_false_eq_true]
  | change command =>
    have thrown : perform intl (s.drawing drawn) (reader.request command) = .error .unparsableRule := by
      have view : (s.drawing drawn).lockById (reader.request command).familyId id = .error .unparsableRule := view
      rw [performView (r := reader.request command) key,view]
      rfl
    simp only [answer,handleAnswer,thrown,performHidden (r := reader.request command) (s := s'.drawing drawn) key hidden,
      Except.map,ne_eq,Response.changed.injEq,reduceCtorEq,not_false_eq_true]

theorem spares (op : Operation) : Spares intl s reader drawn op := by
  intro id there hidden
  cases op with
  | listOpenTasks | listTaskHistory | getTask => exact ⟨rfl,rfl⟩
  | change command =>
    have did : Did intl (s.drawing drawn) (.member (reader.request command)) _ _ := memberDid rfl
    rw [memberWrite] at did
    simp only [afterwards]
    generalize (handle intl (s.drawing drawn) (reader.request command)).1 = outcome at did
    generalize (handle intl (s.drawing drawn) (reader.request command)).2 = next at did
    by_cases own : command.taskId = some id
    · cases did with
      | created is =>
        rw [show command = _ from is] at own
        cases own
      | refused _ tasks assignments => exact ⟨by rw [tasks]; rfl,by simp only [Store.assigneesOf,assignments]; rfl⟩
      | @worked _ t _ _ key view sees =>
        obtain rfl := Option.some.inj (own.symm.trans key)
        obtain ⟨m,mem,unseen⟩ := hidden
        obtain ⟨row,-,-,-,loaded⟩ := viewSource view
        have same : t.assignees = s.assigneesOf t.id := loaded.assignees
        exact absurd (visibleAssignees sees m (same ▸ mem)) unseen
    · exact didApart did own there

end

/-- From two stores that differ only in tasks with an assignee out of sight, the reader is told the
same if and only if the task that they ask for fails to load in both or in neither; and in no case
is such a task changed. -/
theorem hiddenAnswers (intl : Intl) (reader : Reader) (s s' : Store) (drawn : Nat) (reached : Reached intl s)
    (reached' : Reached intl s') (agree : Agree reader s s') (fresh : s.issued ≤ drawn) (fresh' : s'.issued ≤ drawn)
    (op : Operation) :
    (answer intl s reader drawn op = answer intl s' reader drawn op ∧ Spares intl s reader drawn op ∧
      Spares intl s' reader drawn op) ↔
    ∀ id, op.taskId = some id → (s.Unreadable reader id ↔ s'.Unreadable reader id) := by
  have standing := reachedStanding reached
  have standing' := reachedStanding reached'
  constructor
  · rintro ⟨same,-,-⟩ id key
    by_contra differ
    have unlike := not_iff.mp differ
    by_cases unreadable : s.Unreadable reader id
    · exact unreadableApart standing' agree key unreadable (fun is => differ (iff_of_true unreadable is)) same
    · exact unreadableApart standing (fun id => (agree id).symm) key (unlike.mp unreadable) unreadable same.symm
  · intro readable
    refine ⟨?_,spares op,spares op⟩
    cases op with
    | listOpenTasks input pages =>
      simp only [answer,listOpenAlike agree]
    | listTaskHistory input pages => simp only [answer,listClosedAlike agree]
    | getTask id => exact congrArg Response.task (getAlike standing standing' agree (readable id rfl))
    | change command =>
      exact congrArg Response.changed (handleAlike standing standing' agree fresh fresh' command readable)

instance (reader : Reader) (s s' : Store) : Decidable (Agree reader s s') :=
  decidable_of_iff (∀ id ∈ s.tasks.rows.map TaskRow.id ++ s'.tasks.rows.map TaskRow.id, s.shown reader id = s'.shown reader id) (by
    refine ⟨fun same id => ?_,fun agree id _ => agree id⟩
    by_cases there : id ∈ s.tasks.rows.map TaskRow.id ++ s'.tasks.rows.map TaskRow.id
    · exact same id there
    · have absent : ∀ u : Store, id ∉ u.tasks.rows.map TaskRow.id → u.shown reader id = none := by
        intro u away
        unfold Store.shown
        split
        · rfl
        · rename_i row found
          obtain ⟨mem,key⟩ := Table.findSource found
          exact absurd (key ▸ List.mem_map_of_mem mem) away
      rw [List.mem_append,not_or] at there
      rw [absent s there.1,absent s' there.2])

def storeAfter (intl : Intl) (moves : List (RowLock.Move Work)) : Store :=
  ((RowLock.run (works intl) (RowLock.begins Store.empty) moves).map RowLock.Config.store).getD .empty

theorem storeReached {intl : Intl} {moves : List (RowLock.Move Work)}
    (ran : (RowLock.run (works intl) (RowLock.begins Store.empty) moves).isSome = true) :
    Reached intl (storeAfter intl moves) := by
  obtain ⟨last,is⟩ := Option.isSome_iff_exists.mp ran
  refine ⟨moves,last,is,?_⟩
  simp only [storeAfter,is,Option.map_some,Option.getD_some]

def hiddenMoves (rule : Option String) : List (RowLock.Move Work) :=
  [.begin (.member ⟨.createTask ⟨"Bins",none,none,none,some (.date ⟨2026,9,30⟩ "Europe/London"),rule,[7]⟩,0,1,[1,2,7],
    [1,2,7],1000,1000⟩),.lock 0]

def otherAdult : Reader := ⟨0,2,[1,2],[1,2,7],2000,2000⟩

theorem choreAsMissing :
    answer everywhereUtc (storeAfter everywhereUtc (hiddenMoves none)) otherAdult 1 (.change (.completeTask 0 7)) =
      answer everywhereUtc .empty otherAdult 1 (.change (.completeTask 0 7)) ∧
    Spares everywhereUtc (storeAfter everywhereUtc (hiddenMoves none)) otherAdult 1 (.change (.completeTask 0 7)) ∧
    Spares everywhereUtc .empty otherAdult 1 (.change (.completeTask 0 7)) := by
  refine (hiddenAnswers everywhereUtc otherAdult (storeAfter everywhereUtc (hiddenMoves none)) .empty 1
    (storeReached (by decide +kernel)) ⟨[],_,rfl,rfl⟩ (by decide +kernel) (by decide +kernel) (by decide +kernel) _).mpr ?_
  rintro id ⟨⟩
  refine iff_of_false ?_ ?_
  · rintro ⟨row,text,found,-,stored,-⟩
    have ruleless : (((storeAfter everywhereUtc (hiddenMoves none)).tasks.find 0).all
      (fun row => row.recurrenceRule.isNone)) = true := by decide +kernel
    rw [found,Option.all_some,stored] at ruleless
    cases ruleless
  · rintro ⟨row,text,found,-⟩
    cases found

/- Every 10^21 days: the rule is stored as a text that is not read again. -/
theorem choreTold : ¬ ∀ (intl : Intl) (reader : Reader) (s s' : Store) (drawn : Nat) (op : Operation), Reached intl s →
    Reached intl s' → Agree reader s s' → s.issued ≤ drawn → s'.issued ≤ drawn →
      answer intl s reader drawn op = answer intl s' reader drawn op ∧ Spares intl s reader drawn op ∧
        Spares intl s' reader drawn op := by
  intro all
  obtain ⟨same,-⟩ := all everywhereUtc otherAdult
    (storeAfter everywhereUtc (hiddenMoves (some "FREQ=DAILY;INTERVAL=1000000000000000000000"))) .empty 1 (.getTask 0)
    (storeReached (by decide +kernel)) ⟨[],_,rfl,rfl⟩ (by decide +kernel) (by decide +kernel) (by decide +kernel)
  exact absurd same (by decide +kernel)

end FamilyPlatform.Tasks
