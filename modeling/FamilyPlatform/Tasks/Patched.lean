import FamilyPlatform.Tasks.Edits

/-! What an accepted patch leaves of a task, field by field, and what it reports as changed. -/
namespace FamilyPlatform.Tasks
open ZonedTime

/- The aggregate's own copy of the task, with the time of its last commit. -/
structure Aggregate where
  task : Task
  updatedAt : Instant
  deriving DecidableEq

/- Only a commit replaces the copy. -/
def Aggregate.update (intl : Intl) (a : Aggregate) (patch : TaskPatch) (newSeriesId : TaskSeriesId) (now : Instant) :
    Option (Result (List ChangedFieldGroup) × Aggregate) :=
  (a.task.update intl patch newSeriesId).map (fun updated => match updated with
    | .error e => (.error e, a)
    | .ok (next, changed) => (.ok changed, if changed = [] then a else ⟨next,now⟩))

/- Rules are compared, and stored, as their canonical texts. -/
def ruleText (rule : Option RecurrenceRule) : Option String := rule.map RecurrenceRule.toText

structure AsPatched (patch : TaskPatch) (a b : Task) : Prop where
  title : match patch.title with
    | none => b.title = a.title
    | some raw => validateTitle raw = .ok b.title
  notes : match patch.notes with
    | none => b.notes = a.notes
    | some raw => normaliseNotes raw = .ok b.notes
  priority : b.priority = patch.priority.getD a.priority
  category : b.category = patch.category.getD a.category
  due : b.due = patch.due.getD a.due
  rule : match patch.recurrenceRule with
    | none => b.recurrenceRule = a.recurrenceRule
    | some text => ∃ rule, parseRule text = .ok rule ∧ ruleText b.recurrenceRule = ruleText rule

structure ReportsEach (a b : Task) (changed : List ChangedFieldGroup) : Prop where
  details : .details ∈ changed ↔
    b.title ≠ a.title ∨ b.notes ≠ a.notes ∨ b.priority ≠ a.priority ∨ b.category ≠ a.category
  due : .due ∈ changed ↔ b.due ≠ a.due
  recurrence : .recurrence ∈ changed ↔ ruleText b.recurrenceRule ≠ ruleText a.recurrenceRule
  others : .assignees ∉ changed ∧ .status ∉ changed
  once : changed.Nodup

structure Applied (patch : TaskPatch) (now : Instant) (a b : Aggregate) (changed : List ChangedFieldGroup) : Prop where
  fields : AsPatched patch a.task b.task
  groups : ReportsEach a.task b.task changed
  version : b.task.version = if changed = [] then a.task.version else a.task.version + 1
  updatedAt : b.updatedAt = if changed = [] then a.updatedAt else now
  anchor : ruleText b.task.recurrenceRule = ruleText a.task.recurrenceRule →
    b.task.recurrenceAnchor = a.task.recurrenceAnchor
  kept : Kept a.task b.task

/- Another reading that is taken for the due the task has. -/
def Mistaken (intl : Intl) (patch : TaskPatch) (t : Task) : Prop :=
  ∃ due, patch.due = some due ∧ due ≠ t.due ∧ sameDue intl due t.due = some true

namespace Task
variable {intl : Intl} {patch : TaskPatch} {n : TaskSeriesId} {t : Task} {e e' titled noted dated last : Edit}

theorem changeMem {changed : List ChangedFieldGroup} {group g : ChangedFieldGroup} :
    g ∈ change changed group ↔ g ∈ changed ∨ g = group := by
  unfold change
  split
  · exact ⟨.inl,fun either => either.elim (fun mem => mem) (fun is => is ▸ by assumption)⟩
  · rw [List.mem_append,List.mem_singleton]

theorem changeOnce {changed : List ChangedFieldGroup} {group : ChangedFieldGroup} (once : changed.Nodup) :
    (change changed group).Nodup := by
  unfold change
  split
  · exact once
  · rename_i absent
    exact List.nodup_append.mpr ⟨once,by simp,fun a mem b single => by
      rw [List.mem_singleton] at single
      rintro rfl
      exact absent (single ▸ mem)⟩

structure Marks (group : ChangedFieldGroup) (differs : Prop) (before after : List ChangedFieldGroup) : Prop where
  mem : ∀ g, g ∈ after ↔ g ∈ before ∨ (differs ∧ g = group)
  once : before.Nodup → after.Nodup

theorem marksNothing {group : ChangedFieldGroup} {changed : List ChangedFieldGroup} {differs : Prop} (same : ¬ differs) :
    Marks group differs changed changed :=
  ⟨fun _ => ⟨.inl,fun either => either.elim (fun mem => mem) (fun both => absurd both.1 same)⟩,fun once => once⟩

theorem marksChange {group : ChangedFieldGroup} {changed : List ChangedFieldGroup} {differs : Prop} (holds : differs) :
    Marks group differs changed (change changed group) :=
  ⟨fun _ => by simp [changeMem,holds],changeOnce⟩

theorem noteMarks (differs : Prop) [Decidable differs] (group : ChangedFieldGroup) (e : Edit) :
    Marks group differs e.2 (noteChange differs group e).2 := by
  unfold noteChange
  by_cases holds : differs
  · simp only [holds,decide_true,if_true]
    exact marksChange trivial
  · simp only [holds,decide_false,Bool.false_eq_true,if_false]
    exact marksNothing (fun h => h)

theorem titleStage (ok : updateTitle patch e = .ok e') : ∃ title, e'.1 = { e.1 with title := title } ∧
    (match patch.title with | none => title = e.1.title | some raw => validateTitle raw = .ok title) ∧
    Marks .details (title ≠ e.1.title) e.2 e'.2 := by
  unfold updateTitle at ok
  cases named : patch.title with
  | none =>
    rw [named] at ok
    cases ok
    exact ⟨e.1.title,rfl,rfl,marksNothing (by simp)⟩
  | some raw =>
    rw [named] at ok
    obtain ⟨title,valid,ok⟩ := bindSource ok
    cases ok
    exact ⟨title,rfl,valid,noteMarks (title ≠ e.1.title) .details e⟩

theorem notesStage (ok : updateNotes patch e = .ok e') : ∃ notes, e'.1 = { e.1 with notes := notes } ∧
    (match patch.notes with | none => notes = e.1.notes | some raw => normaliseNotes raw = .ok notes) ∧
    Marks .details (notes ≠ e.1.notes) e.2 e'.2 := by
  unfold updateNotes at ok
  cases named : patch.notes with
  | none =>
    rw [named] at ok
    cases ok
    exact ⟨e.1.notes,rfl,rfl,marksNothing (by simp)⟩
  | some raw =>
    rw [named] at ok
    obtain ⟨notes,valid,ok⟩ := bindSource ok
    cases ok
    exact ⟨notes,rfl,valid,noteMarks (notes ≠ e.1.notes) .details e⟩

theorem sameDueSelf {due : Option Due} {same : Bool} (is : sameDue intl due due = some same) : same = true := by
  cases due with
  | none => exact (Option.some.inj is).symm
  | some due =>
    obtain ⟨moment,read,is⟩ := Option.bind_eq_some_iff.mp is
    obtain ⟨moment',again,is⟩ := Option.bind_eq_some_iff.mp is
    cases read.symm.trans again
    simpa using is.symm

theorem dueStage (ok : updateDue intl patch e = some e') : e'.1 = { e.1 with due := patch.due.getD e.1.due } ∧
    ∃ differs : Prop, Marks .due differs e.2 e'.2 ∧ (differs → patch.due.getD e.1.due ≠ e.1.due) ∧
      (¬ differs → patch.due.getD e.1.due ≠ e.1.due → ∃ due, patch.due = some due ∧ due ≠ e.1.due ∧
        sameDue intl due e.1.due = some true) ∧
      (∀ due, patch.due = some due → sameDue intl due e.1.due = some true → ¬ differs) := by
  refine ⟨dueSource ok,?_⟩
  unfold updateDue at ok
  split at ok
  · rename_i none_
    cases ok
    refine ⟨False,marksNothing (fun h => h),False.elim,fun _ other => absurd (by rw [none_]; rfl) other,fun due is => ?_⟩
    cases none_.symm.trans is
  · rename_i due there
    obtain ⟨same,is,ok⟩ := Option.bind_eq_some_iff.mp ok
    cases ok
    have marks := noteMarks ((!same) = true) .due e
    rw [Bool.decide_eq_true] at marks
    refine ⟨(!same) = true,marks,fun differs equal => ?_,fun alike other => ⟨due,there,?_,?_⟩,fun due' there' alike => ?_⟩
    · rw [there,Option.getD_some] at equal
      rw [equal] at is
      rw [sameDueSelf is] at differs
      cases differs
    · rwa [there,Option.getD_some] at other
    · rw [is]
      exact congrArg some (by simpa using alike)
    · cases there.symm.trans there'
      cases is.symm.trans alike
      simp

theorem recurrenceStage (ok : updateRecurrence patch n e = .ok e') : ∃ rule anchor series head,
    e'.1 = { e.1 with recurrenceRule := rule, recurrenceAnchor := anchor, seriesId := series, isSeriesHead := head } ∧
    (match patch.recurrenceRule with
      | none => rule = e.1.recurrenceRule
      | some text => ∃ parsed, parseRule text = .ok parsed ∧ ruleText rule = ruleText parsed) ∧
    (ruleText rule = ruleText e.1.recurrenceRule → anchor = e.1.recurrenceAnchor) ∧
    Marks .recurrence (ruleText rule ≠ ruleText e.1.recurrenceRule) e.2 e'.2 := by
  obtain ⟨next,changed⟩ := e
  unfold updateRecurrence at ok
  cases named : patch.recurrenceRule with
  | none =>
    rw [named] at ok
    cases ok
    exact ⟨_,_,_,_,rfl,rfl,fun _ => rfl,marksNothing (by simp)⟩
  | some text =>
  rw [named] at ok
  obtain ⟨rule,parsed,ok⟩ := bindSource ok
  simp only at ok
  split at ok
  · rename_i same
    cases ok
    exact ⟨_,_,_,_,rfl,⟨rule,parsed,same⟩,fun _ => rfl,marksNothing (by simp)⟩
  rename_i other
  split at ok
  · cases ok
  split at ok
  · cases ok
    exact ⟨_,_,_,_,rfl,⟨none,parsed,rfl⟩,fun same => absurd same.symm other,marksChange (fun same => other same.symm)⟩
  · cases ok
  · cases ok
    exact ⟨_,_,_,_,rfl,⟨_,parsed,rfl⟩,fun same => absurd same.symm other,
      marksChange (fun same => other same.symm)⟩

structure Staged (intl : Intl) (patch : TaskPatch) (t : Task) (last : Edit) : Prop where
  fields : AsPatched patch t last.1
  kept : Kept t last.1
  version : last.1.version = t.version
  anchor : ruleText last.1.recurrenceRule = ruleText t.recurrenceRule → last.1.recurrenceAnchor = t.recurrenceAnchor
  details : .details ∈ last.2 ↔ last.1.title ≠ t.title ∨ last.1.notes ≠ t.notes ∨ last.1.priority ≠ t.priority ∨
    last.1.category ≠ t.category
  recurrence : .recurrence ∈ last.2 ↔ ruleText last.1.recurrenceRule ≠ ruleText t.recurrenceRule
  due : .due ∈ last.2 → last.1.due ≠ t.due
  mistaken : .due ∉ last.2 → last.1.due ≠ t.due → Mistaken intl patch t
  taken : Mistaken intl patch t → .due ∉ last.2
  others : .assignees ∉ last.2 ∧ .status ∉ last.2
  once : last.2.Nodup

theorem stagesSource (stages : Stages intl t patch n titled noted dated last) : Staged intl patch t last := by
  obtain ⟨title,titleIs,titleNamed,titleMarks⟩ := titleStage stages.title
  obtain ⟨notes,notesIs,notesNamed,notesMarks⟩ := notesStage stages.notes
  have priorityMarks := noteMarks (patch.priority.getD noted.1.priority ≠ noted.1.priority) .details noted
  have categoryMarks := noteMarks (patch.category.getD (updatePriority patch noted).1.category ≠
    (updatePriority patch noted).1.category) .details (updatePriority patch noted)
  obtain ⟨dueIs,differs,dueMarks,differ,alike,mistaken⟩ := dueStage stages.due
  obtain ⟨rule,anchor,series,head,ruleIs,ruleNamed,anchored,ruleMarks⟩ := recurrenceStage stages.recurrence
  have before : dated.1 = { t with title := title, notes := notes, priority := patch.priority.getD t.priority,
                                   category := patch.category.getD t.category, due := patch.due.getD t.due } := by
    rw [dueIs]
    simp only [updateCategory,updatePriority,noteChange,notesIs,titleIs]
  have group : ∀ g, g ∈ last.2 ↔ ((((((g ∈ ([] : List ChangedFieldGroup) ∨ title ≠ t.title ∧ g = .details) ∨
      notes ≠ t.notes ∧ g = .details) ∨ patch.priority.getD t.priority ≠ t.priority ∧ g = .details) ∨
      patch.category.getD t.category ≠ t.category ∧ g = .details) ∨ differs ∧ g = .due) ∨
      ruleText rule ≠ ruleText t.recurrenceRule ∧ g = .recurrence) := by
    intro g
    rw [ruleMarks.mem g,dueMarks.mem g,show g ∈ (updateCategory patch (updatePriority patch noted)).2 ↔ _ from
      categoryMarks.mem g,show g ∈ (updatePriority patch noted).2 ↔ _ from priorityMarks.mem g,notesMarks.mem g,
      titleMarks.mem g,before]
    simp only [updatePriority,noteChange,notesIs,titleIs]
  have once : last.2.Nodup := ruleMarks.once (dueMarks.once (categoryMarks.once (priorityMarks.once
    (notesMarks.once (titleMarks.once List.nodup_nil)))))
  simp only [updateCategory,updatePriority,noteChange,notesIs,titleIs] at differ alike mistaken
  rw [before] at ruleIs ruleNamed anchored
  have dueMem : .due ∈ last.2 ↔ differs := by simp [group]
  refine ⟨?_,?_,?_,?_,?_,?_,?_,?_,?_,?_,once⟩
  · rw [ruleIs]
    exact ⟨titleNamed,by rw [titleIs] at notesNamed; exact notesNamed,rfl,rfl,rfl,ruleNamed⟩
  · rw [ruleIs]
    exact ⟨rfl,rfl,rfl,rfl,rfl,rfl,rfl⟩
  · rw [ruleIs]
  · rw [ruleIs]
    exact anchored
  · simp [group,ruleIs,or_assoc]
  · simp [group,ruleIs]
  · rw [dueMem,ruleIs]
    exact differ
  · rw [dueMem,ruleIs]
    exact alike
  · rw [dueMem]
    rintro ⟨due,named,-,same⟩
    exact mistaken due named same
  · simp [group]

end Task

section
variable {intl : Intl} {patch : TaskPatch} {a : Aggregate} {last : Task.Edit}
  (staged : Task.Staged intl patch a.task last)
include staged

/- Nothing was marked: every field but the due is the old one. -/
theorem unmarkedFields (nothing : last.2 = []) (due : last.1.due = a.task.due) : AsPatched patch a.task a.task := by
  have details := staged.details
  have recurrence := staged.recurrence
  simp only [nothing,List.not_mem_nil,false_iff,not_or,ne_eq,not_not] at details recurrence
  obtain ⟨title,notes,priority,category⟩ := details
  have fields := staged.fields
  refine ⟨?_,?_,?_,?_,?_,?_⟩
  · simpa only [title] using fields.title
  · simpa only [notes] using fields.notes
  · rw [← fields.priority,priority]
  · rw [← fields.category,category]
  · rw [← fields.due,due]
  · have named := fields.rule
    split at named
    · rfl
    · rwa [recurrence] at named

theorem unmarkedApplied (now : Instant) (nothing : last.2 = []) :
    Applied patch now a a [] ↔ ¬ Mistaken intl patch a.task := by
  constructor
  · rintro applied ⟨due,named,other,-⟩
    have same := applied.fields.due
    rw [named,Option.getD_some] at same
    exact other same.symm
  · intro plain
    have due : last.1.due = a.task.due := by
      by_contra other
      exact plain (staged.mistaken (by simp [nothing]) other)
    exact ⟨unmarkedFields staged nothing due,⟨by simp,by simp,by simp,by simp,List.nodup_nil⟩,by simp,by simp,
      fun _ => rfl,.refl _⟩

theorem markedReports : ReportsEach a.task (Task.commit last.1) last.2 ↔ ¬ Mistaken intl patch a.task := by
  refine ⟨fun reports mistaken => ?_,fun plain => ⟨staged.details,⟨staged.due,fun other => ?_⟩,staged.recurrence,
    staged.others,staged.once⟩⟩
  · refine staged.taken mistaken (reports.due.mpr ?_)
    obtain ⟨due,named,other,-⟩ := mistaken
    have is : (Task.commit last.1).due = due := by
      have := staged.fields.due
      rw [named] at this
      exact this
    rwa [is]
  · by_contra unmarked
    exact plain (staged.mistaken unmarked other)

theorem markedApplied (now : Instant) (some_ : last.2 ≠ []) :
    Applied patch now a ⟨Task.commit last.1,now⟩ last.2 ↔ ¬ Mistaken intl patch a.task := by
  refine ⟨fun applied => (markedReports staged).mp applied.groups,fun plain =>
    ⟨?_,(markedReports staged).mpr plain,?_,?_,staged.anchor,?_⟩⟩
  · exact ⟨staged.fields.title,staged.fields.notes,staged.fields.priority,staged.fields.category,
      staged.fields.due,staged.fields.rule⟩
  · rw [if_neg some_,← staged.version]
    rfl
  · rw [if_neg some_]
  · exact ⟨staged.kept.id,staged.kept.family,staged.kept.predecessor,staged.kept.creator,staged.kept.state,
      staged.kept.reported,staged.kept.assignees⟩

end

/-- Of a task that is open, an accepted patch does what it says, and reports it, if and only if it
names no due that is taken for the one there is; and a refused patch does nothing. -/
theorem patchApplied (intl : Intl) (a b : Aggregate) (patch : TaskPatch) (n : TaskSeriesId) (now : Instant)
    (result : Result (List ChangedFieldGroup)) (ok : a.update intl patch n now = some (result,b)) :
    (∀ e, result = .error e → b = a) ∧
    ∀ changed, result = .ok changed → (Applied patch now a b changed ↔ ¬ Mistaken intl patch a.task) := by
  obtain ⟨updated,update,is⟩ := Option.map_eq_some_iff.mp ok
  cases updated with
  | error e =>
    cases is
    exact ⟨fun _ _ => rfl,fun _ is => (by cases is)⟩
  | ok edit =>
    obtain ⟨next,groups⟩ := edit
    cases is
    refine ⟨fun _ is => (by cases is),fun changed is => ?_⟩
    cases is
    obtain ⟨-,titled,noted,dated,last,stages,finished⟩ := Task.updateStages update
    have staged := Task.stagesSource stages
    rcases finished with ⟨nothing,rfl,rfl⟩ | ⟨some_,rfl,rfl⟩
    · rw [if_pos rfl]
      exact unmarkedApplied staged now nothing
    · rw [if_neg some_]
      exact markedApplied staged now some_

def londonSpring : Zone where
  offsetAt s := if s < 1774746000 then 0 else 3600
  steady := by
    refine ⟨by decide,fun s => ?_,fun s => ?_,fun s => ⟨1774746000,fun u low high => ?_⟩⟩
    · split <;> omega
    · split <;> split <;> omega
    · split <;> split <;> omega

def nightTask : Aggregate where
  task := ⟨0,0,"Bins",none,.normal,none,some (.dateTime ⟨2026,3,29⟩ ⟨1,30⟩ "Europe/London"),none,none,none,none,false,
    .opened,none,[],some 1,1⟩
  updatedAt := 1000

def dueAtTwo (title : Option String) : TaskPatch :=
  ⟨title,none,none,none,some (some (.dateTime ⟨2026,3,29⟩ ⟨2,30⟩ "Europe/London")),none⟩

theorem nightRenamed : ∃ b, nightTask.update (fun _ => some londonSpring) ⟨some " Bottles",none,none,none,none,none⟩ 0
    2000 = some (.ok [.details],b) ∧ Applied ⟨some " Bottles",none,none,none,none,none⟩ 2000 nightTask b [.details] := by
  refine ⟨_,rfl,?_⟩
  refine ((patchApplied (fun _ => some londonSpring) nightTask _ ⟨some " Bottles",none,none,none,none,none⟩ 0 2000 _
    rfl).2 _ rfl).mpr ?_
  rintro ⟨due,named,-⟩
  cases named

/- Half past two is the reading that the skipped one is taken for. -/
theorem dueDropped : ¬ ∀ (intl : Intl) (a b : Aggregate) (patch : TaskPatch) (n : TaskSeriesId) (now : Instant)
    (changed : List ChangedFieldGroup), a.update intl patch n now = some (.ok changed,b) →
      Applied patch now a b changed := by
  intro all
  have applied := all (fun _ => some londonSpring) nightTask nightTask (dueAtTwo none) 0 2000 [] (by decide +kernel)
  exact absurd applied.fields.due (by decide)

end FamilyPlatform.Tasks
