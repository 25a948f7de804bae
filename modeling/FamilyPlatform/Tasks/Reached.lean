import FamilyPlatform.Tasks.SeriesRuns

/-! The tables that commands and overdue reports lead to, from the empty ones on: whole
chains, rows that were written from tasks, and no assignment of a task that is not there. -/
namespace FamilyPlatform.Tasks
open ZonedTime

def Reached (intl : Intl) (s : Store) : Prop := ∃ moves, ∃ last : RowLock.Config Store Work View WorkOutcome,
  RowLock.run (works intl) (RowLock.begins Store.empty) moves = some last ∧ last.store = s

namespace Store

def Recorded (intl : Intl) (s : Store) : Prop :=
  ∀ id row, s.tasks.find id = some row → ∃ t, columns intl t = .ok row.toTaskColumns

def Assigned (s : Store) : Prop := ∀ a ∈ s.assignments, (s.tasks.find a.taskId).isSome = true

structure Standing (intl : Intl) (s : Store) : Prop where
  chained : Chained s.issued s.links
  recorded : s.Recorded intl
  assigned : s.Assigned

end Store

section
variable {intl : Intl} {s next : Store} {r : Request} {t : Task} {reply : Reply}

theorem recordedReads {row : TaskRow} (made : columns intl t = .ok row.toTaskColumns) :
    (∃ due, toDue row = some due) ∧ ∃ state, toState row = some state := by
  obtain ⟨date,time,dueAt,anchor,dated,timed,-,-,is⟩ := columnsSource made
  have kind := congrArg TaskColumns.dueKind is
  have dueDate := congrArg TaskColumns.dueDate is
  have dueTime := congrArg TaskColumns.dueLocalTime is
  have zone := congrArg TaskColumns.timeZone is
  have status := congrArg TaskColumns.status is
  have completed := congrArg TaskColumns.completedAt is
  have cancelled := congrArg TaskColumns.cancelledAt is
  simp only [columnsOf] at kind dueDate dueTime zone status completed cancelled
  have dates := meetsConvert localDateToDb (t.due.map Due.localDate)
  have times := meetsConvert localTimeToDb (t.due.bind Due.localTime)
  rw [dated] at dates
  rw [timed] at times
  simp only [Meets] at dates times
  refine ⟨?_,?_⟩
  · cases due : t.due with
    | none =>
      simp only [due,Option.map_none,Option.getD_none] at kind
      exact ⟨none,by simp only [toDue,kind]⟩
    | some value =>
      rw [due] at dates times kind zone
      obtain ⟨d,rfl⟩ := Option.isSome_iff_exists.mp (dates.trans rfl)
      cases value with
      | date _ timeZone =>
        simp only [Option.map_some,Option.getD_some,Due.kind,Due.timeZone] at kind zone
        exact ⟨some (.date d timeZone),by simp only [toDue,kind,dueDate,zone]⟩
      | dateTime _ _ timeZone =>
        simp only [Option.map_some,Option.getD_some,Due.kind,Due.timeZone] at kind zone
        obtain ⟨l,rfl⟩ := Option.isSome_iff_exists.mp (times.trans rfl)
        exact ⟨some (.dateTime d l timeZone),by simp only [toDue,kind,dueDate,zone,dueTime]⟩
  · cases state : t.state with
    | opened =>
      simp only [state,TaskState.status] at status
      exact ⟨.opened,by simp only [toState,status]⟩
    | completed time member =>
      simp only [state,TaskState.status,completion,Option.map_some] at status completed
      exact ⟨.completed time row.completedByMemberId,by simp only [toState,status,completed]⟩
    | cancelled time member =>
      simp only [state,TaskState.status,cancellation,Option.map_some] at status cancelled
      exact ⟨.cancelled time row.cancelledByMemberId,by simp only [toState,status,cancelled]⟩

theorem changedRecorded (changed : Store.Changed intl s next t)
    (others : ∀ id, id ≠ t.id → next.tasks.find id = s.tasks.find id) (recorded : s.Recorded intl) :
    next.Recorded intl := by
  obtain ⟨old,written,-,made,is⟩ := changed
  intro id row there
  by_cases same : id = t.id
  · subst same
    obtain rfl := Option.some.inj (is.symm.trans there)
    exact ⟨t,made⟩
  · exact recorded id row (others id same ▸ there)

theorem placedRecorded {familyId : FamilyId} (placed : Store.Placed intl s next familyId t)
    (others : ∀ id, id ≠ t.id → next.tasks.find id = s.tasks.find id) (recorded : s.Recorded intl) :
    next.Recorded intl := by
  obtain ⟨written,-,made,is⟩ := placed
  intro id row there
  by_cases same : id = t.id
  · subst same
    obtain rfl := Option.some.inj (is.symm.trans there)
    exact ⟨t,made⟩
  · exact recorded id row (others id same ▸ there)

theorem effectRecorded (recorded : s.Recorded intl) (effect : Effect intl s r t reply next) : next.Recorded intl := by
  cases effect with
  | kept tasks => exact fun id row there => recorded id row (tasks ▸ there)
  | moved _ row rows => exact changedRecorded row rows recorded
  | @handed t' due _ _ _ row placed rows =>
    obtain ⟨old,written,-,made,is⟩ := row
    obtain ⟨written',-,made',is'⟩ := placed
    intro id row there
    by_cases own : id = t'.id
    · subst own
      obtain rfl := Option.some.inj (is.symm.trans there)
      exact ⟨_,made⟩
    · by_cases new : id = s.issued
      · subst new
        obtain rfl := Option.some.inj (is'.symm.trans there)
        exact ⟨_,made'⟩
      · exact recorded id row (rows id own new ▸ there)

theorem didRecorded {w : Work} {outcome : WorkOutcome} (recorded : s.Recorded intl)
    (did : Did intl s w outcome next) : next.Recorded intl := by
  cases did with
  | created _ _ row rows => exact placedRecorded row rows recorded
  | worked _ _ _ effect => exact effectRecorded recorded effect
  | refused _ tasks => exact fun id row there => recorded id row (tasks ▸ there)
  | reported _ _ _ _ row rows => exact changedRecorded row rows recorded
  | unreported _ => exact recorded

theorem saveAssigned (assigned : s.Assigned) (ok : s.save intl t = .ok next) : next.Assigned := by
  obtain ⟨⟨old,written,-,-,is⟩,rows,assignments,-⟩ := Store.saveSource ok
  intro a mem
  rw [assignments] at mem
  by_cases own : a.taskId = t.id
  · rw [own,is]
    rfl
  · rw [rows _ own]
    exact assigned a mem

theorem insertAssigned {familyId : FamilyId} (assigned : s.Assigned) (ok : s.insert intl familyId t = .ok next) :
    next.Assigned ∧ (next.tasks.find t.id).isSome = true := by
  obtain ⟨⟨written,-,-,is⟩,rows,assignments,-⟩ := Store.insertSource ok
  refine ⟨fun a mem => ?_,by rw [is]; rfl⟩
  rw [assignments] at mem
  by_cases own : a.taskId = t.id
  · rw [own,is]
    rfl
  · rw [rows _ own]
    exact assigned a mem

theorem addAssigned {familyMembers : List FamilyMemberId} {time : Instant} {taskId : TaskId}
    {members : List FamilyMemberId} (assigned : s.Assigned) (there : (s.tasks.find taskId).isSome = true)
    (ok : s.addAssignments familyMembers time taskId members = .ok next) : next.Assigned := by
  simp only [Store.addAssignments] at ok
  split at ok <;> cases ok
  intro a mem
  rcases List.mem_append.mp mem with old | new
  · exact assigned a old
  · obtain ⟨m,-,rfl⟩ := List.mem_map.mp new
    exact there

theorem removeAssigned {taskId : TaskId} {member : FamilyMemberId} (assigned : s.Assigned) :
    (s.removeAssignment taskId member).Assigned :=
  fun a mem => assigned a (List.mem_of_mem_filter mem)

theorem spawnAssigned (assigned : s.Assigned) (spawned : spawnSuccessor intl s r t = .ok (.ok (reply,next))) :
    next.Assigned := by
  unfold spawnSuccessor at spawned
  obtain ⟨due,-,spawned⟩ := bindSource spawned
  split at spawned
  · cases spawned
  · cases spawned
    exact assigned
  · obtain ⟨handed,ok,spawned⟩ := bindSource spawned
    obtain ⟨last,added,spawned⟩ := bindSource spawned
    cases spawned
    obtain ⟨saved,relinquished,inserted⟩ := Store.handOverSource ok
    obtain ⟨placed,there⟩ := insertAssigned (saveAssigned assigned relinquished) inserted
    exact addAssigned placed there added

theorem updateAssigned {patch : TaskPatch} (assigned : s.Assigned)
    (ok : updateLocked intl s patch t = .ok (.ok (reply,next))) : next.Assigned := by
  obtain ⟨edit,-,ok⟩ := bindSource ok
  split at ok
  · cases ok
  · split at ok
    · cases ok
      exact assigned
    · obtain ⟨_,after,-,kept,ok⟩ := saveAndSource ok
      cases ok
      exact saveAssigned assigned kept

theorem assignAssigned {member : FamilyMemberId} (assigned : s.Assigned) (there : (s.tasks.find t.id).isSome = true)
    (ok : assignLocked intl s r t.id member t = .ok (.ok (reply,next))) : next.Assigned := by
  unfold assignLocked at ok
  split at ok
  · cases ok
  · cases ok
    exact assigned
  · split at ok
    · cases ok
    · cases ok
    · rename_i added
      obtain ⟨_,after,-,kept,ok⟩ := saveAndSource ok
      cases ok
      exact saveAssigned (addAssigned assigned there added) kept

theorem unassignAssigned {taskId : TaskId} {member : FamilyMemberId} (assigned : s.Assigned)
    (ok : unassignLocked intl s taskId member t = .ok (.ok (reply,next))) : next.Assigned := by
  unfold unassignLocked at ok
  split at ok
  · cases ok
  · cases ok
    exact assigned
  · obtain ⟨_,after,-,kept,ok⟩ := saveAndSource ok
    cases ok
    exact saveAssigned (removeAssigned assigned) kept

theorem lockedAssigned (assigned : s.Assigned) (id : r.command.taskId = some t.id)
    (there : (s.tasks.find t.id).isSome = true) (ok : lockedWork intl s r t = .ok (.ok (reply,next))) :
    next.Assigned := by
  unfold lockedWork at ok
  cases command : r.command with
  | createTask params =>
    rw [command] at id
    cases id
  | updateTask taskId version patch =>
    rw [command] at ok
    exact updateAssigned assigned ok
  | completeTask taskId version =>
    simp only [command,completeLocked] at ok
    obtain ⟨t',after,-,kept,ok⟩ := saveAndSource ok
    exact spawnAssigned (saveAssigned assigned kept) ok
  | cancelTask taskId version scope =>
    simp only [command,cancelLocked] at ok
    obtain ⟨t',after,-,kept,ok⟩ := saveAndSource ok
    split at ok
    · cases ok
      exact saveAssigned assigned kept
    · exact spawnAssigned (saveAssigned assigned kept) ok
  | reopenTask taskId version =>
    simp only [command,reopenLocked] at ok
    obtain ⟨t',after,-,kept,ok⟩ := saveAndSource ok
    cases ok
    exact saveAssigned assigned kept
  | assignTask taskId assignee =>
    rw [command] at ok id
    cases id
    exact assignAssigned assigned there ok
  | unassignTask taskId assignee =>
    rw [command] at ok
    exact unassignAssigned assigned ok

theorem createAssigned {params : NewTask} (assigned : s.Assigned)
    (ok : createTask intl s r params = .ok (.ok (reply,next))) : next.Assigned := by
  unfold createTask at ok
  split at ok
  · cases ok
  obtain ⟨inserted,put,ok⟩ := bindSource ok
  obtain ⟨placed,there⟩ := insertAssigned assigned put
  split at ok
  · cases ok
  · cases ok
  · rename_i last added
    cases ok
    exact addAssigned placed there added

theorem performAssigned (assigned : s.Assigned) (ok : perform intl s r = .ok (.ok (reply,next))) : next.Assigned := by
  rw [performRead] at ok
  cases command : r.command with
  | createTask params =>
    simp only [performLocked,command] at ok
    exact createAssigned assigned ok
  | _ =>
    simp only [performLocked,command] at ok
    obtain ⟨seen,view,ok⟩ := bindSource ok
    split at ok
    · cases ok
    rename_i t sees
    obtain rfl := visibleSource sees
    obtain ⟨row,there,key,-⟩ := viewSource view
    exact lockedAssigned assigned key (by rw [there]; rfl) ok

theorem handleAssigned (assigned : s.Assigned) : (handle intl s r).2.Assigned := by
  unfold handle
  cases performed : perform intl s r with
  | error e => exact assigned
  | ok result =>
    cases result with
    | error e => exact assigned
    | ok done => exact fun a mem => performAssigned assigned performed a mem

theorem reportSource {r : ReportRequest} {event : Option TaskOverdue} (ok : reportOverdue intl s r = .ok (event,next)) :
    next = s ∨ ∃ (t : Task) (dueAt : Option Instant), t.link ∈ s.links ∧
      s.save intl { t with overdueReportedFor := dueAt } = .ok next := by
  unfold reportOverdue at ok
  obtain ⟨seen,locked,ok⟩ := bindSource ok
  split at ok
  · cases ok
    exact .inl rfl
  rename_i t
  have source := meetsLock s r.familyId r.taskId
  rw [locked] at source
  unfold reportLocked at ok
  obtain ⟨dueAt,-,ok⟩ := bindSource ok
  split at ok
  · cases ok
    exact .inl rfl
  obtain ⟨needs,-,ok⟩ := bindSource ok
  split at ok
  · obtain ⟨marked,recorded,ok⟩ := bindSource ok
    obtain ⟨saved,kept,ok⟩ := bindSource ok
    cases ok
    obtain ⟨marker,-,rfl⟩ := Option.map_eq_some_iff.mp (orThrowSource recorded)
    exact .inr ⟨t,marker,(source t rfl).1,kept⟩
  · cases ok
    exact .inl rfl

theorem reportStanding {r : ReportRequest} {event : Option TaskOverdue} (chained : Chained s.issued s.links)
    (assigned : s.Assigned) (ok : reportOverdue intl s r = .ok (event,next)) :
    Chained next.issued next.links ∧ next.Assigned := by
  rcases reportSource ok with rfl | ⟨t,dueAt,mem,kept⟩
  · exact ⟨chained,assigned⟩
  · have same : replace s.links t.link = s.links := replaceSame chained mem
    have saved : Meets (fun next => next.links = replace s.links t.link ∧ next.issued = s.issued)
        (s.save intl { t with overdueReportedFor := dueAt }) := meetsSave mem rfl rfl (same.symm ▸ chained)
    rw [kept] at saved
    obtain ⟨links,issued⟩ := saved
    refine ⟨?_,saveAssigned assigned kept⟩
    rw [links,issued]
    exact same.symm ▸ chained

theorem workStanding {w : Work} (standing : s.Standing intl) :
    (writeLocked intl s w (readLocked s w)).2.Standing intl := by
  have recorded := didRecorded standing.recorded (writeDid (w := w) rfl)
  cases w with
  | member r =>
    rw [memberWrite] at recorded ⊢
    exact ⟨(handleKeeps standing.chained).2,recorded,handleAssigned standing.assigned⟩
  | report r =>
    cases reported : reportOverdue intl s r with
    | error e =>
      have stays : (writeLocked intl s (.report r) (readLocked s (.report r))).2 = s := by
        simp only [writeLocked,← reportRead,reported]
      rw [stays]
      exact standing
    | ok done =>
      have goes : (writeLocked intl s (.report r) (readLocked s (.report r))).2 = done.2 := by
        simp only [writeLocked,← reportRead,reported]
      rw [goes] at recorded ⊢
      obtain ⟨chained,assigned⟩ := reportStanding standing.chained standing.assigned reported
      exact ⟨chained,recorded,assigned⟩

theorem emptyStanding : Store.empty.Standing intl := by
  refine ⟨chainedEmpty,?_,?_⟩
  · intro id row found
    cases found
  · simp [Store.Assigned,Store.empty]

theorem reachedStanding (reached : Reached intl s) : s.Standing intl := by
  obtain ⟨moves,last,ran,rfl⟩ := reached
  have within : ∀ w : Work, .begin w ∈ moves → (fun _ : Work => True) w := fun _ _ => trivial
  obtain ⟨serial,requests⟩ := RowLock.runSerial worksFramed within ran
  refine (serial.keeps (Store.Standing intl) (fun _ => True) (fun _ => True) (fun e read made _ standing => ?_)
    requests emptyStanding).1
  have kept := workStanding (w := e.request) standing
  rw [show readLocked e.before e.request = e.view from read.symm,
    show writeLocked intl e.before e.request e.view = (e.outcome,e.after) from made] at kept
  exact ⟨kept,trivial⟩

end
end FamilyPlatform.Tasks
