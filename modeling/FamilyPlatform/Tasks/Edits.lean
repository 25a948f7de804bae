import FamilyPlatform.Tasks.Task

/-! What a member's change of a task takes over, and what it leaves as it was. -/
namespace FamilyPlatform.Tasks
open ZonedTime

structure Kept (a b : Task) : Prop where
  id : b.id = a.id
  family : b.familyId = a.familyId
  predecessor : b.predecessorId = a.predecessorId
  creator : b.createdByMemberId = a.createdByMemberId
  state : b.state = a.state
  reported : b.overdueReportedFor = a.overdueReportedFor
  assignees : b.assignees = a.assignees

theorem Kept.refl (t : Task) : Kept t t := ⟨rfl,rfl,rfl,rfl,rfl,rfl,rfl⟩

def Recurs (a b : Task) : Prop :=
  (b.recurrenceRule = a.recurrenceRule ∧ b.recurrenceAnchor = a.recurrenceAnchor) ∨
  (b.recurrenceRule = none ∧ b.recurrenceAnchor = none) ∨
  ∃ text rule due, parseRule text = .ok (some rule) ∧ b.recurrenceRule = some rule ∧ b.due = some due ∧
    b.recurrenceAnchor = some (dueLocalDateTime due)

structure Edited (patch : TaskPatch) (a b : Task) : Prop where
  kept : Kept a b
  due : b.due = patch.due.getD a.due
  version : b.version = a.version + 1
  recurs : Recurs a b

def Details (a b : Task) : Prop :=
  ∃ title notes priority category,
    b = { a with title := title, notes := notes, priority := priority, category := category }

theorem Details.refl (t : Task) : Details t t := ⟨t.title,t.notes,t.priority,t.category,rfl⟩

theorem Details.trans {a b c : Task} (first : Details a b) (second : Details b c) : Details a c := by
  obtain ⟨_,_,_,_,rfl⟩ := first
  obtain ⟨title,notes,priority,category,rfl⟩ := second
  exact ⟨title,notes,priority,category,rfl⟩

namespace Task

theorem titleSource {patch : TaskPatch} {e e' : Edit} (ok : updateTitle patch e = .ok e') : Details e.1 e'.1 := by
  unfold updateTitle at ok
  split at ok
  · cases ok
    exact .refl _
  · obtain ⟨title,-,ok⟩ := bindSource ok
    cases ok
    exact ⟨_,_,_,_,rfl⟩

theorem notesSource {patch : TaskPatch} {e e' : Edit} (ok : updateNotes patch e = .ok e') : Details e.1 e'.1 := by
  unfold updateNotes at ok
  split at ok
  · cases ok
    exact .refl _
  · obtain ⟨notes,-,ok⟩ := bindSource ok
    cases ok
    exact ⟨_,_,_,_,rfl⟩

theorem dueSource {intl : Intl} {patch : TaskPatch} {e e' : Edit} (ok : updateDue intl patch e = some e') :
    e'.1 = { e.1 with due := patch.due.getD e.1.due } := by
  unfold updateDue at ok
  split at ok
  · rename_i none_
    cases ok
    rw [none_]
    rfl
  · rename_i due there
    obtain ⟨same,-,ok⟩ := Option.bind_eq_some_iff.mp ok
    cases ok
    rw [there]
    rfl

theorem recurrenceSource {patch : TaskPatch} {n : TaskSeriesId} {e e' : Edit}
    (ok : updateRecurrence patch n e = .ok e') : Kept e.1 e'.1 ∧ e'.1.due = e.1.due ∧ e'.1.version = e.1.version ∧
      Recurs e.1 e'.1 := by
  have unchanged : Kept e.1 e.1 ∧ e.1.due = e.1.due ∧ e.1.version = e.1.version ∧ Recurs e.1 e.1 :=
    ⟨.refl _,rfl,rfl,.inl ⟨rfl,rfl⟩⟩
  obtain ⟨next,changed⟩ := e
  unfold updateRecurrence at ok
  split at ok
  · cases ok
    exact unchanged
  rename_i text there
  obtain ⟨rule,parsed,ok⟩ := bindSource ok
  simp only at ok
  split at ok
  · cases ok
    exact unchanged
  split at ok
  · cases ok
  split at ok
  · cases ok
    exact ⟨⟨rfl,rfl,rfl,rfl,rfl,rfl,rfl⟩,rfl,rfl,.inr (.inl ⟨rfl,rfl⟩)⟩
  · cases ok
  · rename_i rule due _ _
    cases ok
    exact ⟨⟨rfl,rfl,rfl,rfl,rfl,rfl,rfl⟩,rfl,rfl,.inr (.inr ⟨text,rule,due,parsed,rfl,by assumption,rfl⟩)⟩

structure Stages (intl : Intl) (t : Task) (patch : TaskPatch) (n : TaskSeriesId) (titled noted dated last : Edit) :
    Prop where
  title : updateTitle patch (t,[]) = .ok titled
  notes : updateNotes patch titled = .ok noted
  due : updateDue intl patch (updateCategory patch (updatePriority patch noted)) = some dated
  recurrence : updateRecurrence patch n dated = .ok last
  recurs : last.1.recurrenceRule.isSome = true → last.1.due.isSome = true

def Finished (t : Task) (last : Edit) (next : Task) (changed : List ChangedFieldGroup) : Prop :=
  (last.2 = [] ∧ next = t ∧ changed = []) ∨ (last.2 ≠ [] ∧ next = commit last.1 ∧ changed = last.2)

theorem finishSource {t next : Task} {last : Edit} {changed : List ChangedFieldGroup}
    (ok : finish t last = .ok (next,changed)) :
    (last.1.recurrenceRule.isSome = true → last.1.due.isSome = true) ∧ Finished t last next changed := by
  unfold finish at ok
  split at ok
  · cases ok
  rename_i due
  refine ⟨fun ruled => ?_,?_⟩
  · simpa [ruled,Option.isSome_iff_ne_none] using due
  · have same := Except.ok.inj ok
    split at same <;> cases same
    · exact .inl ⟨by assumption,rfl,rfl⟩
    · exact .inr ⟨by assumption,rfl,rfl⟩

theorem updateStages {intl : Intl} {t next : Task} {patch : TaskPatch} {n : TaskSeriesId}
    {changed : List ChangedFieldGroup} (ok : t.update intl patch n = some (.ok (next,changed))) :
    t.isOpen = true ∧ ∃ titled noted dated last, Stages intl t patch n titled noted dated last ∧
      Finished t last next changed := by
  unfold update at ok
  split at ok
  · cases ok
  rename_i open_
  refine ⟨by simpa using open_,?_⟩
  simp only at ok
  split at ok
  · cases ok
  rename_i noted edited
  obtain ⟨titled,first,second⟩ := bindSource edited
  obtain ⟨dated,third,ok⟩ := Option.bind_eq_some_iff.mp ok
  obtain ⟨last,fourth,ok⟩ := bindSource (Option.some.inj ok)
  obtain ⟨recurs,finished⟩ := finishSource ok
  exact ⟨titled,noted,dated,last,⟨first,second,third,fourth,recurs⟩,finished⟩

theorem Stages.dated {intl : Intl} {t : Task} {patch : TaskPatch} {n : TaskSeriesId} {titled noted dated last : Edit}
    (stages : Stages intl t patch n titled noted dated last) :
    Details { t with due := patch.due.getD t.due } dated.1 := by
  obtain ⟨title,notes,priority,category,same⟩ := (titleSource stages.title).trans (notesSource stages.notes)
  rw [dueSource stages.due]
  simp only [updateCategory,updatePriority,noteChange,same]
  exact ⟨_,_,_,_,rfl⟩

theorem updateSource {intl : Intl} {t next : Task} {patch : TaskPatch} {n : TaskSeriesId}
    {changed : List ChangedFieldGroup} (ok : t.update intl patch n = some (.ok (next,changed))) :
    t.isOpen = true ∧ (changed = [] ∧ next = t ∨ changed ≠ [] ∧ Edited patch t next) := by
  obtain ⟨open_,titled,noted,dated,last,stages,finished⟩ := updateStages ok
  refine ⟨open_,?_⟩
  rcases finished with ⟨-,rfl,rfl⟩ | ⟨some_,rfl,rfl⟩
  · exact .inl ⟨rfl,rfl⟩
  obtain ⟨kept,due,version,recurs⟩ := recurrenceSource stages.recurrence
  obtain ⟨_,_,_,_,before⟩ := stages.dated
  rw [before] at kept due version recurs
  exact .inr ⟨some_,⟨⟨kept.id,kept.family,kept.predecessor,kept.creator,kept.state,kept.reported,kept.assignees⟩,
    due,congrArg (· + 1) version,recurs⟩⟩

structure Created (params : NewTask) (t : Task) : Prop where
  due : t.due = params.due
  rule : parseRule params.recurrenceRule = .ok t.recurrenceRule
  anchor : t.recurrenceAnchor = if t.recurrenceRule.isSome then t.due.map dueLocalDateTime else none
  predecessor : t.predecessorId = none
  state : t.state = .opened
  reported : t.overdueReportedFor = none
  version : t.version = 1

theorem createSource {params : NewTask} {id : TaskId} {familyId : FamilyId} {series : TaskSeriesId}
    {member : FamilyMemberId} {t : Task} (ok : create params id familyId series member = .ok t) :
    t.id = id ∧ t.familyId = familyId ∧ t.createdByMemberId = some member ∧ Created params t := by
  unfold create at ok
  obtain ⟨title,-,ok⟩ := bindSource ok
  obtain ⟨notes,-,ok⟩ := bindSource ok
  obtain ⟨rule,parsed,ok⟩ := bindSource ok
  split at ok <;> cases ok
  exact ⟨rfl,rfl,rfl,rfl,parsed,rfl,rfl,rfl,rfl,rfl⟩

theorem completeSource {t next : Task} {member : FamilyMemberId} {now : Instant}
    (ok : t.complete member now = .ok next) :
    t.isOpen = true ∧ next = commit { t with state := .completed now (some member) } := by
  unfold complete at ok
  split at ok <;> cases ok
  exact ⟨by simp_all,rfl⟩

theorem cancelSource {t next : Task} {member : FamilyMemberId} {now : Instant} (ok : t.cancel member now = .ok next) :
    t.isOpen = true ∧ next = commit { t with state := .cancelled now (some member) } := by
  unfold cancel at ok
  split at ok <;> cases ok
  exact ⟨by simp_all,rfl⟩

theorem reopenSource {t next : Task} (ok : t.reopen = .ok next) :
    t.state.status = .completed ∧ next = commit { t with state := .opened } := by
  unfold reopen at ok
  split at ok <;> cases ok
  exact ⟨by simp_all,rfl⟩

theorem assignSource {t next : Task} {member : FamilyMemberId} (ok : t.assign member = .ok (some next)) :
    t.isOpen = true ∧ next = commit { t with assignees := t.assignees ++ [member] } := by
  unfold assign at ok
  split at ok
  · cases ok
  · split at ok <;> cases ok
    exact ⟨by simp_all,rfl⟩

theorem unassignSource {t next : Task} {member : FamilyMemberId} (ok : t.unassign member = .ok (some next)) :
    t.isOpen = true ∧ next = commit { t with assignees := t.assignees.filter (· ≠ member) } := by
  unfold unassign at ok
  split at ok
  · cases ok
  · split at ok <;> cases ok
    exact ⟨by simp_all,rfl⟩

end Task
end FamilyPlatform.Tasks
