import FamilyPlatform.Tasks.Works

/-! The tasks that a work writes. Every row that it leaves was there before, or holds
the columns of one of them. -/
namespace FamilyPlatform.Tasks
open ZonedTime

def Command.closes : Command → Bool
  | .completeTask _ _ | .cancelTask _ _ .instance_ => true
  | .createTask _ | .updateTask _ _ _ | .cancelTask _ _ .series | .reopenTask _ _ | .assignTask _ _
  | .unassignTask _ _ => false

def Closes (t t' : Task) : Prop := ∃ state, t' = Task.commit { t with state := state }

inductive Wrote (intl : Intl) (s : Store) : Work → Task → Prop where
  | created {r params t} (command : r.command = .createTask params)
      (ok : Task.create params s.issued r.familyId s.issued r.memberId = .ok t) : Wrote intl s (.member r) t
  | moved {r t t'} (view : readLocked s (.member r) = .ok (some t)) (move : Moved intl r s.issued t t') :
      Wrote intl s (.member r) t'
  | relinquished {r t t'} (view : readLocked s (.member r) = .ok (some t)) (closed : Closes t t') :
      Wrote intl s (.member r) t'.relinquishHead
  | succeeded {r t t' due} (view : readLocked s (.member r) = .ok (some t)) (closed : Closes t t')
      (found : successorDueOf intl t' r.now = some (.ok (some due)))
      (handed : (writeLocked intl s (.member r) (readLocked s (.member r))).1 =
        .replied (.ok (.ok ⟨t'.relinquishHead,some (Task.successorOf s.issued t' due r.memberId)⟩))) :
      Wrote intl s (.member r) (Task.successorOf s.issued t' due r.memberId)
  | reported {r t dueAt} (view : readLocked s (.report r) = .ok (some t)) :
      Wrote intl s (.report r) { t with overdueReportedFor := some dueAt }

section
variable {intl : Intl} {s next : Store} {r : Request} {t : Task} {reply : Reply}

theorem unaccompaniedAlone {task : Task} (ok : unaccompanied s task = .ok (.ok (reply,next))) :
    reply.successor = none := by
  cases ok
  rfl

theorem savedAlone {moved : Result Task} (ok : saveAnd intl s moved unaccompanied = .ok (.ok (reply,next))) :
    reply.successor = none := by
  obtain ⟨_,_,-,-,alone⟩ := saveAndSource ok
  exact unaccompaniedAlone alone

theorem lockedAlone (ok : lockedWork intl s r t = .ok (.ok (reply,next))) (other : r.command.closes = false) :
    reply.successor = none := by
  unfold lockedWork at ok
  cases command : r.command with
  | createTask params =>
    simp only [command] at ok
    obtain ⟨_,-,rfl,-⟩ := createEffect ok
    rfl
  | updateTask taskId version patch =>
    simp only [command,updateLocked] at ok
    obtain ⟨edit,-,ok⟩ := bindSource ok
    split at ok
    · cases ok
    · split at ok
      · exact unaccompaniedAlone ok
      · exact savedAlone ok
  | completeTask taskId version =>
    rw [command] at other
    cases other
  | cancelTask taskId version scope =>
    cases scope with
    | instance_ =>
      rw [command] at other
      cases other
    | series =>
      simp only [command,cancelLocked,if_true] at ok
      exact savedAlone ok
  | reopenTask taskId version =>
    simp only [command,reopenLocked] at ok
    exact savedAlone ok
  | assignTask taskId assignee =>
    simp only [command,assignLocked] at ok
    split at ok
    · cases ok
    · exact unaccompaniedAlone ok
    · split at ok
      · cases ok
      · cases ok
      · exact savedAlone ok
  | unassignTask taskId assignee =>
    simp only [command,unassignLocked] at ok
    split at ok
    · cases ok
    · exact unaccompaniedAlone ok
    · exact savedAlone ok

theorem writtenCloses {view : View} (made : (writeLocked intl s (.member r) view).1 = .replied (.ok (.ok reply)))
    (accompanied : reply.successor ≠ none) : r.command.closes = true := by
  simp only [writeLocked,WorkOutcome.replied.injEq] at made
  cases performed : performLocked intl s r view with
  | error e => simp [performed,settle] at made
  | ok result =>
    cases result with
    | error e => simp [performed,settle] at made
    | ok done =>
      obtain ⟨reply',next⟩ := done
      simp only [performed,settle,Except.ok.injEq] at made
      subst made
      by_contra other
      refine accompanied ?_
      rw [Bool.not_eq_true] at other
      unfold performLocked at performed
      split at performed
      · obtain ⟨_,-,rfl,-⟩ := createEffect performed
        rfl
      · obtain ⟨seen,-,performed⟩ := bindSource performed
        split at performed
        · cases performed
        · exact lockedAlone performed other

theorem movedCloses {n : TaskSeriesId} {t' : Task} (move : Moved intl r n t t') (closes : r.command.closes = true) :
    Closes t t' := by
  cases move with
  | completed command ok => obtain ⟨-,rfl⟩ := Task.completeSource ok; exact ⟨_,rfl⟩
  | cancelled command ok => obtain ⟨-,rfl⟩ := Task.cancelSource ok; exact ⟨_,rfl⟩
  | updated command => rw [command] at closes; cases closes
  | reopened command => rw [command] at closes; cases closes
  | assigned command => rw [command] at closes; cases closes
  | unassigned command => rw [command] at closes; cases closes

theorem changedColumns (changed : Store.Changed intl s next t) {row : TaskRow} (there : next.tasks.find t.id = some row) :
    columns intl t = .ok row.toTaskColumns := by
  obtain ⟨old,written,-,made,is⟩ := changed
  cases is.symm.trans there
  exact made

theorem placedColumns {familyId : FamilyId} (placed : Store.Placed intl s next familyId t) {row : TaskRow}
    (there : next.tasks.find t.id = some row) : columns intl t = .ok row.toTaskColumns := by
  obtain ⟨written,-,made,is⟩ := placed
  cases is.symm.trans there
  exact made

theorem workRows {w : Work} (id : TaskId) (row : TaskRow)
    (there : (writeLocked intl s w (readLocked s w)).2.tasks.find id = some row) :
    s.tasks.find id = some row ∨ ∃ t, Wrote intl s w t ∧ t.id = id ∧ columns intl t = .ok row.toTaskColumns := by
  have did : Did intl s w _ _ := writeDid rfl
  generalize outcome : (writeLocked intl s w (readLocked s w)).1 = out at did
  generalize (writeLocked intl s w (readLocked s w)).2 = next at did there
  cases did with
  | @created r params t _ command ok placed rows =>
    by_cases own : id = t.id
    · subst own
      exact .inr ⟨t,.created command ok,rfl,placedColumns placed there⟩
    · exact .inl (rows id own ▸ there)
  | @worked r t reply _ _ view _ effect =>
    cases effect with
    | kept tasks => exact .inl (tasks ▸ there)
    | @moved t' _ move changed rows =>
      by_cases own : id = t'.id
      · subst own
        exact .inr ⟨t',.moved view move,rfl,changedColumns changed there⟩
      · exact .inl (rows id own ▸ there)
    | @handed t' due _ move found changed placed rows =>
      have closed := movedCloses move (writtenCloses outcome (by simp))
      by_cases own : id = t'.id
      · subst own
        exact .inr ⟨_,.relinquished view closed,rfl,changedColumns changed there⟩
      · by_cases new : id = s.issued
        · subst new
          exact .inr ⟨_,.succeeded view closed found outcome,rfl,placedColumns placed there⟩
        · exact .inl (rows id own new ▸ there)
  | refused _ tasks => exact .inl (tasks ▸ there)
  | @reported r t dueAt _ _ view _ _ changed rows =>
    by_cases own : id = t.id
    · subst own
      exact .inr ⟨_,.reported view,rfl,changedColumns changed there⟩
    · exact .inl (rows id own ▸ there)
  | unreported => exact .inl there

end
end FamilyPlatform.Tasks
