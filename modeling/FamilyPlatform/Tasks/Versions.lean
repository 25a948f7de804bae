import FamilyPlatform.Tasks.Works

/-! The version of a task, through any interleaving of commands and overdue reports:
it counts the members' changes, and a command that names an old one changes nothing. -/
namespace FamilyPlatform.Tasks

abbrev Commit := RowLock.Entry Store Work View WorkOutcome

namespace Commit

def Accepted (e : Commit) : Prop := ∃ reply, e.outcome = .replied (.ok (.ok reply))

def On (e : Commit) (id : TaskId) : Prop := ∃ r, e.request = .member r ∧ r.command.taskId = some id

def Names (e : Commit) (id : TaskId) (version : Nat) : Prop :=
  ∃ r, e.request = .member r ∧ r.command.taskId = some id ∧ r.command.expectedVersion = some version

def Changes (e : Commit) (id : TaskId) : Prop :=
  ¬ (e.after.tasks.find id = e.before.tasks.find id ∧ e.after.assigneesOf id = e.before.assigneesOf id)

def Idle (e : Commit) : Prop := e.after.tasks = e.before.tasks ∧ e.after.assignments = e.before.assignments

/- A member's accepted change adds one to the version; nothing else touches it. -/
def Counts (e : Commit) : Prop := ∀ id row, e.before.tasks.find id = some row →
  ∃ row', e.after.tasks.find id = some row' ∧
    (e.Accepted ∧ e.On id ∧ e.Changes id → row'.version = row.version + 1) ∧
    (¬ (e.Accepted ∧ e.On id ∧ e.Changes id) → row'.version = row.version)

/- An accepted command was computed from the task as it was, in the version it names. -/
def Current (intl : ZonedTime.Intl) (e : Commit) : Prop := ∀ r id version, e.request = .member r →
  r.command.taskId = some id → r.command.expectedVersion = some version → e.Accepted →
    ∃ t, e.before.lockById r.familyId id = .ok (some t) ∧ t.version = version ∧
      writeLocked intl e.before (.member r) (.ok (some t)) = (e.outcome,e.after)

def Conflicts (e : Commit) : Prop := ∃ current, e.outcome = .replied (.ok (.error (.versionConflict current)))

/- The answer to a version that is gone: of a task the reader does not see, only that it is not there. -/
def Superseded (e : Commit) : Prop := ¬ e.Accepted ∧ e.Idle ∧ ∀ r t, e.request = .member r → e.view = .ok (some t) →
  e.outcome = .replied (.ok (.error
    (if t.assignees.any (· ∉ r.visible) then .notFound else .versionConflict t.version)))

end Commit

def Retires (answer : Commit → Prop) (e d : Commit) : Prop := ∀ id version, e.Names id version → e.Accepted →
  e.Changes id → d.Names id version → answer d

section
variable {intl : ZonedTime.Intl} {s next : Store} {t : Task} {w : Work} {outcome : WorkOutcome}

theorem changedVersion (changed : Store.Changed intl s next t) :
    ∃ row', next.tasks.find t.id = some row' ∧ row'.version = t.version := by
  obtain ⟨old,written,-,made,is⟩ := changed
  obtain ⟨_,_,_,_,-,-,-,-,rfl⟩ := columnsSource made
  exact ⟨_,is,rfl⟩

inductive RowStep (s next : Store) (w : Work) (outcome : WorkOutcome) (id : TaskId) (row : TaskRow) : Prop where
  | same (find : next.tasks.find id = s.tasks.find id) (assignees : next.assigneesOf id = s.assigneesOf id)
  | marked {r row'} (work : w = .report r) (find : next.tasks.find id = some row') (version : row'.version = row.version)
  | raised {r reply row'} (work : w = .member r) (own : r.command.taskId = some id)
      (ok : outcome = .replied (.ok (.ok reply))) (find : next.tasks.find id = some row')
      (version : row'.version = row.version + 1)

theorem didRow (did : Did intl s w outcome next) {id : TaskId} {row : TaskRow} (there : s.tasks.find id = some row) :
    RowStep s next w outcome id row := by
  by_cases own : w.taskId = some id
  · cases did with
    | created command => simp only [Work.taskId,command,Command.taskId] at own; cases own
    | refused _ tasks assignments => exact .same (by rw [tasks]) (by simp only [Store.assigneesOf,assignments])
    | unreported _ => exact .same rfl rfl
    | reported _ view _ _ changed =>
      obtain ⟨old,found,key,-,loaded⟩ := viewSource view
      obtain rfl := Option.some.inj (own.symm.trans key)
      obtain rfl := Option.some.inj (there.symm.trans found)
      obtain ⟨row',is,version⟩ := changedVersion changed
      exact .marked rfl is (version.trans loaded.version)
    | worked _ view _ effect _ =>
      obtain ⟨old,found,key,-,loaded⟩ := viewSource view
      obtain rfl := Option.some.inj (own.symm.trans key)
      obtain rfl := Option.some.inj (there.symm.trans found)
      cases effect with
      | kept tasks assignments => exact .same (by rw [tasks]) (by simp only [Store.assigneesOf,assignments])
      | @moved t' _ move changed _ =>
        obtain ⟨same,version,-⟩ := movedKeeps move
        obtain ⟨row',is,version'⟩ := changedVersion changed
        exact .raised rfl key rfl (same ▸ is) (by rw [version',version,loaded.version])
      | @handed t' _ _ move _ changed _ _ =>
        obtain ⟨same,version,-⟩ := movedKeeps move
        have id : t'.relinquishHead.id = t'.id := rfl
        obtain ⟨row',is,version'⟩ := changedVersion changed
        refine .raised rfl key rfl (same ▸ is) ?_
        calc row'.version = t'.version := version'
          _ = row.version + 1 := by rw [version,loaded.version]
  · obtain ⟨find,assignees⟩ := didApart did own (by rw [there]; rfl)
    exact .same find assignees

def Computed (intl : ZonedTime.Intl) (e : Commit) : Prop :=
  e.view = readLocked e.before e.request ∧ writeLocked intl e.before e.request e.view = (e.outcome,e.after)

theorem computedDid {e : Commit} (computed : Computed intl e) : Did intl e.before e.request e.outcome e.after := by
  have did : Did intl e.before e.request _ _ := writeDid computed.1
  rwa [computed.2] at did

theorem countsStep {e : Commit} (computed : Computed intl e) : e.Counts := by
  intro id row there
  cases didRow (computedDid computed) there with
  | same find assignees =>
    refine ⟨row,find.trans there,?_,fun _ => rfl⟩
    rintro ⟨-,-,changes⟩
    exact absurd ⟨find,assignees⟩ changes
  | marked work find version =>
    refine ⟨_,find,?_,fun _ => version⟩
    rintro ⟨-,⟨r,member,-⟩,-⟩
    rw [work] at member
    cases member
  | raised work own ok find version =>
    refine ⟨_,find,fun _ => version,fun no => ?_⟩
    refine absurd ⟨⟨_,ok⟩,⟨_,work,own⟩,?_⟩ no
    rintro ⟨same,-⟩
    obtain rfl := Option.some.inj ((find.symm.trans same).trans there)
    omega

theorem visibleVersion {r : Request} {version : Nat} (sees : visibleTask r (some t) = .ok t)
    (named : r.command.expectedVersion = some version) : t.version = version := by
  simp only [visibleTask,named,Option.any_some] at sees
  split at sees
  · cases sees
  · split at sees
    · cases sees
    · rename_i same
      simpa using Eq.symm (by simpa using same)

theorem currentStep {e : Commit} (computed : Computed intl e) : e.Current intl := by
  intro r id version member own named accepted
  have did := computedDid computed
  obtain ⟨read,written⟩ := computed
  rw [member] at did read written
  obtain ⟨reply,ok⟩ := accepted
  rw [ok] at did
  cases did with
  | created command => rw [command] at own; cases own
  | refused no => exact absurd rfl (no reply)
  | @worked _ t _ _ key view sees =>
    obtain rfl := Option.some.inj (own.symm.trans key)
    obtain ⟨_,-,-,locked,-⟩ := viewSource view
    rw [read,view] at written
    exact ⟨t,locked,visibleVersion sees named,written⟩

def Beyond (id : TaskId) (version : Nat) (s : Store) : Prop := ∃ row, s.tasks.find id = some row ∧ version < row.version

theorem beyondStep {e : Commit} {id : TaskId} {version : Nat} (computed : Computed intl e)
    (beyond : Beyond id version e.before) : Beyond id version e.after := by
  obtain ⟨row,there,less⟩ := beyond
  obtain ⟨row',there',raised,kept⟩ := countsStep computed id row there
  refine ⟨row',there',?_⟩
  by_cases changes : e.Accepted ∧ e.On id ∧ e.Changes id
  · have := raised changes
    omega
  · have := kept changes
    omega

theorem changeBeyond {e : Commit} {id : TaskId} {version : Nat} (computed : Computed intl e)
    (names : e.Names id version) (accepted : e.Accepted) (changes : e.Changes id) : Beyond id version e.after := by
  obtain ⟨r,member,own,named⟩ := names
  obtain ⟨t,locked,is,-⟩ := currentStep computed r id version member own named accepted
  obtain ⟨row,there,-,-,loaded⟩ := Store.lockSource locked
  obtain ⟨row',there',raised,-⟩ := countsStep computed id row there
  have := raised ⟨accepted,⟨r,member,own⟩,changes⟩
  exact ⟨row',there',by rw [this,← loaded.version,is]; omega⟩

theorem beyondSuperseded {e : Commit} {id : TaskId} {version : Nat} (computed : Computed intl e)
    (names : e.Names id version) (beyond : Beyond id version e.before) : e.Superseded := by
  obtain ⟨r,member,own,named⟩ := names
  obtain ⟨row,there,less⟩ := beyond
  have refused : ¬ e.Accepted := by
    intro accepted
    obtain ⟨t,locked,is,-⟩ := currentStep computed r id version member own named accepted
    obtain ⟨row',there',-,-,loaded⟩ := Store.lockSource locked
    obtain rfl := Option.some.inj (there.symm.trans there')
    have := loaded.version
    omega
  have did := computedDid computed
  obtain ⟨read,written⟩ := computed
  rw [member] at did
  refine ⟨refused,?_,?_⟩
  · generalize same : e.outcome = outcome at did
    cases did with
    | created command => rw [command] at own; cases own
    | refused _ tasks assignments => exact ⟨tasks,assignments⟩
    | worked => exact absurd ⟨_,same⟩ refused
  · intro r' t member' view
    obtain rfl : r = r' := Work.member.inj (member.symm.trans member')
    rw [member] at read written
    obtain ⟨row',there',key,-,loaded⟩ := viewSource (read.symm.trans view)
    obtain rfl := Option.some.inj (own.symm.trans key)
    obtain rfl := Option.some.inj (there.symm.trans there')
    have stale : (some version).any (· ≠ t.version) = true := by
      have := loaded.version
      simp only [Option.any_some,decide_eq_true_eq]
      omega
    have seen : visibleTask r (some t) =
        .error (if t.assignees.any (· ∉ r.visible) then .notFound else .versionConflict t.version) := by
      simp only [visibleTask,named,if_pos stale]
      split <;> rfl
    have performed : performLocked intl e.before r e.view =
        .ok (.error (if t.assignees.any (· ∉ r.visible) then .notFound else .versionConflict t.version)) := by
      unfold performLocked
      cases command : r.command with
      | createTask => rw [command] at own; cases own
      | _ => simp only [view,bind,Except.bind,seen]; rfl
    simp only [writeLocked,performed,settle] at written
    exact (congrArg Prod.fst written).symm

theorem serialVersions {last : Store} {log : List Commit} (serial : RowLock.Serial (works intl) s log last) :
    (∀ e ∈ log, Computed intl e) ∧ log.Pairwise (Retires Commit.Superseded) := by
  induction serial with
  | nil s => exact ⟨by simp,.nil⟩
  | @cons e rest last view made later ih =>
    obtain ⟨computed,pairs⟩ := ih
    refine ⟨List.forall_mem_cons.mpr ⟨⟨view,made⟩,computed⟩,List.pairwise_cons.mpr ⟨?_,pairs⟩⟩
    intro d mem id version names accepted changes again
    have kept := later.keeps (Beyond id version) (fun _ => True) (fun _ => True)
      (fun _ view made _ before => ⟨beyondStep ⟨view,made⟩ before,trivial⟩) (fun _ _ => trivial)
      (changeBeyond ⟨view,made⟩ names accepted changes)
    exact beyondSuperseded (computed d mem) again (kept.2 d mem).1

/-- In every run each accepted change counts one version, is computed from the version that it
names, and retires it. -/
theorem runVersions (intl : ZonedTime.Intl) (s : Store) (moves : List (RowLock.Move Work))
    (last : RowLock.Config Store Work View WorkOutcome)
    (ran : RowLock.run (works intl) (RowLock.begins s) moves = some last) :
    (∀ e : Commit, e ∈ last.log → e.Counts ∧ e.Current intl) ∧ last.log.Pairwise (Retires Commit.Superseded) := by
  have within : ∀ w : Work, .begin w ∈ moves → (fun _ : Work => True) w := fun _ _ => trivial
  obtain ⟨serial,-⟩ := RowLock.runSerial worksFramed within ran
  obtain ⟨computed,pairs⟩ := serialVersions serial
  exact ⟨fun e mem => ⟨countsStep (computed e mem),currentStep (computed e mem)⟩,pairs⟩

end

def choreOf (command : Command) (member : FamilyMemberId) (visible : List FamilyMemberId) : Work :=
  .member ⟨command,0,member,visible,[1,2,7],1000,1000⟩

def choreMoves : List (RowLock.Move Work) :=
  [.begin (choreOf (.createTask ⟨"Bins",none,none,none,none,none,[7]⟩) 1 [7]),.lock 0,
   .begin (choreOf (.completeTask 0 1) 1 [7]),.begin (choreOf (.completeTask 0 1) 2 []),.lock 1,.commit 1,
   .lock 2,.commit 2]

theorem choreVersions : ∃ last : RowLock.Config Store Work View WorkOutcome,
    (last.log.map (fun e => (e.after.tasks.find 0).map (fun row => row.version)) = [some 1,some 2,some 2]) ∧
    (∀ e : Commit, e ∈ last.log → e.Counts ∧ e.Current everywhereUtc) ∧
    last.log.Pairwise (Retires Commit.Superseded) := by
  have run : (RowLock.run (works everywhereUtc) (RowLock.begins Store.empty) choreMoves).map
      (fun c => c.log.map (fun e => (e.after.tasks.find 0).map (fun row => row.version))) =
      some [some 1,some 2,some 2] := by decide +kernel
  obtain ⟨last,ran,versions⟩ := Option.map_eq_some_iff.mp run
  exact ⟨last,versions,runVersions everywhereUtc .empty choreMoves last ran⟩

def WorkOutcome.succeeded : WorkOutcome → Bool
  | .replied (.ok (.ok _)) => true
  | _ => false

theorem choreHidden : ¬ ∀ (intl : ZonedTime.Intl) (s : Store) (moves : List (RowLock.Move Work))
    (last : RowLock.Config Store Work View WorkOutcome),
    RowLock.run (works intl) (RowLock.begins s) moves = some last → last.log.Pairwise (Retires Commit.Conflicts) := by
  intro all
  have run : (RowLock.run (works everywhereUtc) (RowLock.begins Store.empty) choreMoves).map
      (fun c => (c.log.drop 1).map (fun e => (e.request,
        (e.outcome.succeeded,decide (e.outcome = .replied (.ok (.error .notFound)))),
        (e.before.tasks.find 0).map (fun row => row.version),(e.after.tasks.find 0).map (fun row => row.version)))) =
      some [(choreOf (.completeTask 0 1) 1 [7],(true,false),some 1,some 2),
        (choreOf (.completeTask 0 1) 2 [],(false,true),some 2,some 2)] := by decide +kernel
  obtain ⟨last,ran,log⟩ := Option.map_eq_some_iff.mp run
  obtain ⟨e,rest,two,first,log⟩ := List.map_eq_cons_iff.mp log
  obtain ⟨d,none_,rfl,second,-⟩ := List.map_eq_cons_iff.mp log
  simp only [Prod.mk.injEq,decide_eq_true_eq] at first second
  obtain ⟨request,⟨done,-⟩,before,after⟩ := first
  obtain ⟨request',⟨-,hidden⟩,-⟩ := second
  have pair := (two ▸ (all everywhereUtc .empty choreMoves last ran).drop : (e :: d :: none_).Pairwise _)
  have accepted : Commit.Accepted e := by
    unfold WorkOutcome.succeeded at done
    split at done
    · exact ⟨_,by assumption⟩
    · cases done
  have changes : Commit.Changes e 0 := by
    rintro ⟨same,-⟩
    rw [← same,after] at before
    cases before
  obtain ⟨current,conflict⟩ := (List.pairwise_cons.mp pair).1 d List.mem_cons_self 0 1 ⟨_,request,rfl,rfl⟩ accepted
    changes ⟨_,request',rfl,rfl⟩
  rw [hidden] at conflict
  cases conflict

end FamilyPlatform.Tasks
