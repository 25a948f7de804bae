import FamilyPlatform.Tasks.Edits
import FamilyPlatform.Tasks.Store

/-! What the rows of the store hold of a task, and what each write leaves of the others. -/
namespace FamilyPlatform.Tasks
open ZonedTime

def columnsOf (t : Task) (dueDate : Option LocalDate) (dueLocalTime : Option LocalTime) (dueAt : Option Instant)
    (anchor : Option LocalDateTime) : TaskColumns :=
  { title := t.title, notes := t.notes, priority := t.priority, category := t.category, status := t.state.status,
    dueKind := (t.due.map Due.kind).getD .none, dueDate := dueDate, dueLocalTime := dueLocalTime,
    timeZone := t.due.map Due.timeZone, dueAt := dueAt,
    recurrenceRule := t.recurrenceRule.map RecurrenceRule.toText, recurrenceAnchor := anchor, seriesId := t.seriesId,
    isSeriesHead := t.isSeriesHead, completedAt := (completion t.state).map Prod.fst,
    completedByMemberId := (completion t.state).bind Prod.snd, cancelledAt := (cancellation t.state).map Prod.fst,
    cancelledByMemberId := (cancellation t.state).bind Prod.snd,
    closedAt := ((completion t.state).or (cancellation t.state)).map Prod.fst,
    overdueReportedFor := t.overdueReportedFor, version := t.version }

theorem columnsAre {intl : Intl} {t : Task} {date : Option LocalDate} {time : Option LocalTime}
    {dueAt : Option Instant} {anchor : Option LocalDateTime}
    (dated : convert localDateToDb (t.due.map Due.localDate) = .ok date)
    (timed : convert localTimeToDb (t.due.bind Due.localTime) = .ok time) (moment : t.dueAt intl = some dueAt)
    (anchored : convert localDateTimeToDb t.recurrenceAnchor = .ok anchor) :
    columns intl t = .ok (columnsOf t date time dueAt anchor) := by
  simp only [columns,dated,timed,moment,anchored,orThrow,bind,Except.bind]
  rfl

theorem orThrowSource {α : Type} {x : Option α} {a : α} (ok : orThrow x = .ok a) : x = some a := by
  cases x <;> cases ok
  rfl

theorem columnsSource {intl : Intl} {t : Task} {written : TaskColumns} (ok : columns intl t = .ok written) :
    ∃ date time dueAt anchor, convert localDateToDb (t.due.map Due.localDate) = .ok date ∧
      convert localTimeToDb (t.due.bind Due.localTime) = .ok time ∧ t.dueAt intl = some dueAt ∧
      convert localDateTimeToDb t.recurrenceAnchor = .ok anchor ∧ written = columnsOf t date time dueAt anchor := by
  unfold columns at ok
  obtain ⟨date,dated,ok⟩ := bindSource ok
  obtain ⟨time,timed,ok⟩ := bindSource ok
  obtain ⟨dueAt,moment,ok⟩ := bindSource ok
  obtain ⟨anchor,anchored,ok⟩ := bindSource ok
  cases ok
  exact ⟨date,time,dueAt,anchor,dated,timed,orThrowSource moment,anchored,rfl⟩

def rowOf (t : Task) (written : TaskColumns) : TaskRow :=
  { written with id := t.id, familyId := t.familyId, predecessorId := t.predecessorId,
                 createdByMemberId := t.createdByMemberId }

structure Loaded (row : TaskRow) (assignees : List FamilyMemberId) (t : Task) : Prop where
  id : t.id = row.id
  family : t.familyId = row.familyId
  predecessor : t.predecessorId = row.predecessorId
  creator : t.createdByMemberId = row.createdByMemberId
  due : toDue row = some t.due
  rule : storedRule row = .ok t.recurrenceRule
  anchor : t.recurrenceAnchor = row.recurrenceAnchor
  state : toState row = some t.state
  reported : t.overdueReportedFor = row.overdueReportedFor
  assignees : t.assignees = assignees
  version : t.version = row.version

theorem loadedSource {row : TaskRow} {assignees : List FamilyMemberId} {t : Task}
    (ok : toAggregate row assignees = .ok t) : Loaded row assignees t := by
  unfold toAggregate at ok
  obtain ⟨rule,stored,ok⟩ := bindSource ok
  obtain ⟨due,dated,ok⟩ := bindSource ok
  obtain ⟨state,stated,ok⟩ := bindSource ok
  cases ok
  exact ⟨rfl,rfl,rfl,rfl,orThrowSource dated,stored,rfl,orThrowSource stated,rfl,rfl,rfl⟩

theorem stateStatus {row : TaskRow} {state : TaskState} (is : toState row = some state) : state.status = row.status := by
  unfold toState at is
  split at is <;> cases is <;> simp_all [TaskState.status]

namespace Store

variable {intl : Intl} {s next : Store} {familyId : FamilyId} {t : Task}

theorem lockSource {id : TaskId} (ok : s.lockById familyId id = .ok (some t)) :
    ∃ row, s.tasks.find id = some row ∧ row.id = id ∧ row.familyId = familyId ∧ Loaded row (s.assigneesOf id) t := by
  unfold lockById at ok
  split at ok
  · cases ok
  · rename_i row found
    obtain ⟨there,family⟩ := Option.filter_eq_some_iff.mp found
    cases read : toAggregate row (s.assigneesOf id) with
    | error e =>
      rw [read] at ok
      cases ok
    | ok task =>
      rw [read] at ok
      cases ok
      exact ⟨row,there,(Table.findSource there).2,by simpa using family,loadedSource read⟩

theorem lockSame {id : TaskId} (row : next.tasks.find id = s.tasks.find id)
    (assignees : next.assigneesOf id = s.assigneesOf id) : next.lockById familyId id = s.lockById familyId id := by
  unfold lockById
  rw [row,assignees]

def Changed (intl : Intl) (s next : Store) (t : Task) : Prop :=
  ∃ old written, s.tasks.find t.id = some old ∧ columns intl t = .ok written ∧
    next.tasks.find t.id = some { old with toTaskColumns := written }

def Placed (intl : Intl) (s next : Store) (familyId : FamilyId) (t : Task) : Prop :=
  ∃ written, s.tasks.find t.id = none ∧ columns intl t = .ok written ∧
    next.tasks.find t.id = some { rowOf t written with familyId := familyId }

theorem saveSource (ok : s.save intl t = .ok next) : Changed intl s next t ∧
    (∀ id, id ≠ t.id → next.tasks.find id = s.tasks.find id) ∧ next.assignments = s.assignments ∧
    next.issued = s.issued := by
  unfold save at ok
  obtain ⟨written,made,ok⟩ := bindSource ok
  obtain ⟨old,found,ok⟩ := bindSource ok
  obtain ⟨_,-,ok⟩ := bindSource ok
  cases ok
  have there := orThrowSource found
  refine ⟨⟨old,written,there,made,?_⟩,fun id apart => ?_,rfl,rfl⟩
  · rw [Table.findUpdate,if_pos rfl,there]
    rfl
  · rw [Table.findUpdate,if_neg apart]

theorem insertSource (ok : s.insert intl familyId t = .ok next) : Placed intl s next familyId t ∧
    (∀ id, id ≠ t.id → next.tasks.find id = s.tasks.find id) ∧ next.assignments = s.assignments ∧
    next.issued = s.issued := by
  unfold insert at ok
  obtain ⟨written,made,ok⟩ := bindSource ok
  obtain ⟨_,-,ok⟩ := bindSource ok
  split at ok
  · split at ok
    · rename_i tasks inserted
      cases ok
      have find := Table.findInsert inserted
      refine ⟨⟨written,?_,made,by rw [find]; exact if_pos rfl⟩,fun id apart => by rw [find]; exact if_neg apart,rfl,rfl⟩
      cases found : s.tasks.find t.id with
      | none => rfl
      | some old =>
        have source := Table.findSource found
        exact absurd source.2 ((Table.insertRows inserted).2 old source.1)
    · cases ok
  · cases ok

theorem handOverSource {predecessor : Task} (ok : s.handOverHead intl familyId predecessor t = .ok next) :
    ∃ saved, s.save intl predecessor = .ok saved ∧ saved.insert intl familyId t = .ok next := by
  unfold handOverHead at ok
  split at ok
  · cases ok
  simp only at ok
  split at ok
  · cases ok
  · exact bindSource ok

theorem assigneesAppend {id : TaskId} {fresh : List TaskAssignment} (other : ∀ a ∈ fresh, a.taskId ≠ id) :
    assigneesOf { s with assignments := s.assignments ++ fresh } id = s.assigneesOf id := by
  have none_ : fresh.filter (fun a => a.taskId = id) = [] := by simpa using other
  simp only [assigneesOf,List.filter_append,none_,List.append_nil]

theorem addSource {familyMembers : List FamilyMemberId} {time : Instant} {taskId : TaskId}
    {members : List FamilyMemberId} (ok : s.addAssignments familyMembers time taskId members = .ok next) :
    next.tasks = s.tasks ∧ next.issued = s.issued ∧ ∀ id, id ≠ taskId → next.assigneesOf id = s.assigneesOf id := by
  simp only [addAssignments] at ok
  split at ok <;> cases ok
  refine ⟨rfl,rfl,fun id apart => assigneesAppend (fun a mem => ?_)⟩
  obtain ⟨m,-,rfl⟩ := List.mem_map.mp mem
  exact Ne.symm apart

theorem removeOther {taskId id : TaskId} {member : FamilyMemberId} (apart : id ≠ taskId) :
    (s.removeAssignment taskId member).assigneesOf id = s.assigneesOf id := by
  simp only [assigneesOf,removeAssignment,List.filter_filter]
  congr 3
  funext a
  by_cases same : a.taskId = id
  · simp [same,apart]
  · simp [same]

end Store
end FamilyPlatform.Tasks
