import FamilyPlatform.Tasks.Heads
import FamilyPlatform.Tasks.Hidden

/-! The tasks that have handed a series on: in every run they are those that carry a rule
without being a head. An edit of the rule of any other one is meant to be taken. -/
namespace FamilyPlatform.Tasks
open ZonedTime Recurrence RecurrenceRule

def Store.HandedOver (s : Store) (id : TaskId) : Prop := ∃ row ∈ s.tasks.rows, row.predecessorId = some id
instance (s : Store) (id : TaskId) : Decidable (s.HandedOver id) := by unfold Store.HandedOver; infer_instance

def Link.Passed (l : Link) : Prop := l.ruled = true ∧ l.isSeriesHead = false

def Store.Handed (s : Store) : Prop := ∀ id row, s.tasks.find id = some row → (s.HandedOver id ↔ row.link.Passed)

/- A patch that names a rule of the subset, and is otherwise in order: its texts are, the task has
a due with it, and the moments of its due and the task's can be told. -/
structure NamesRule (intl : Intl) (t : Task) (patch : TaskPatch) (rule : RecurrenceRule) : Prop where
  rule : ∃ text, patch.recurrenceRule = some (some text) ∧ parse text = .ok rule
  due : (patch.due.getD t.due).isSome = true
  moments : ∀ due, patch.due = some due → ∃ same, sameDue intl due t.due = some same
  title : ∀ raw, patch.title = some raw → ∃ title, validateTitle raw = .ok title
  notes : ∀ raw, patch.notes = some raw → ∃ notes, normaliseNotes raw = .ok notes

structure HeadWith (t : Task) (rule : RecurrenceRule) : Prop where
  head : t.isSeriesHead = true
  series : t.seriesId.isSome = true
  rule : t.recurrenceRule = some rule
  anchor : ∃ due, t.due = some due ∧ t.recurrenceAnchor = some (dueLocalDateTime due)

/- Refused only where the series was handed on, and else taken. -/
structure RuleTaken (intl : Intl) (s : Store) (r : Request) (version : Nat) (t : Task) (patch : TaskPatch)
    (rule : RecurrenceRule) : Prop where
  refused : updateTask intl s r t.id version patch = .ok (t.refuse "edit") → s.HandedOver t.id
  taken : ¬ s.HandedOver t.id → ∃ t' changed, t.update intl patch s.issued = some (.ok (t',changed)) ∧
    (t.recurrenceRule.map toText ≠ some rule.toText → HeadWith t' rule)

section
variable {intl : Intl} {s next : Store} {r : Request} {t t' : Task} {patch : TaskPatch} {rule : RecurrenceRule}
  {n : TaskSeriesId} {w : Work}

theorem handedFind {id : TaskId} :
    s.HandedOver id ↔ ∃ other row, s.tasks.find other = some row ∧ row.predecessorId = some id := by
  constructor
  · rintro ⟨row,mem,names⟩
    exact ⟨row.id,row,Table.findMember mem,names⟩
  · rintro ⟨other,row,there,names⟩
    exact ⟨row,(Table.findSource there).1,names⟩

theorem handedThere {id : TaskId} (chained : Chained s.issued s.links) (handed : s.HandedOver id) :
    ∃ row, s.tasks.find id = some row := by
  obtain ⟨row,mem,names⟩ := handed
  have linked : row.link ∈ s.links := List.mem_map_of_mem mem
  obtain ⟨series,member⟩ := chained.inSeries linked names
  obtain ⟨previous,source,same⟩ := Chain.linkedNames (chained.linked series) (memSeries.mpr ⟨linked,member⟩) names
  obtain ⟨before,mem',rfl⟩ := List.mem_map.mp (memSeries.mp source).1
  exact ⟨before,same ▸ Table.findMember mem'⟩

theorem columnsPassed {row : TaskRow} (made : columns intl t = .ok row.toTaskColumns) :
    row.link.Passed ↔ t.link.Passed := by
  obtain ⟨_,_,_,_,-,-,-,-,columns_⟩ := columnsSource made
  have rule := congrArg TaskColumns.recurrenceRule columns_
  have head := congrArg TaskColumns.isSeriesHead columns_
  simp only [columnsOf] at rule head
  simp [Link.Passed,TaskRow.link,Task.link,rule,head]

theorem updatePassed {changed : List ChangedFieldGroup} (shaped : t.link.Shaped)
    (ok : t.update intl patch n = some (.ok (t',changed))) : t'.link.Passed ↔ t.link.Passed := by
  obtain ⟨-,titled,noted,dated,last,stages,finished⟩ := Task.updateStages ok
  rcases finished with ⟨-,rfl,-⟩ | ⟨-,rfl,-⟩
  · rfl
  obtain ⟨_,_,_,_,before⟩ := stages.dated
  have edit := stages.recurrence
  suffices last.1.link.Passed ↔ dated.1.link.Passed by
    refine this.trans ?_
    rw [before]
    exact Iff.rfl
  have series : dated.1.recurrenceRule.isSome = true → dated.1.seriesId.isSome = true := by
    rw [before]
    exact shaped.series
  obtain ⟨task,groups⟩ := dated
  unfold Task.updateRecurrence at edit
  split at edit
  · cases edit
    rfl
  obtain ⟨parsed,-,edit⟩ := bindSource edit
  simp only at edit series
  split at edit
  · cases edit
    rfl
  split at edit
  · cases edit
  rename_i free
  have unpassed : ¬ task.link.Passed := by
    rintro ⟨ruled,head⟩
    exact free (by simpa [Task.link] using ⟨series ruled,head⟩)
  split at edit
  · cases edit
    exact iff_of_false (by simp [Link.Passed,Task.link]) unpassed
  · cases edit
  · cases edit
    exact iff_of_false (by simp [Link.Passed,Task.link]) unpassed

theorem movedPassed (shaped : t.link.Shaped) (move : Moved intl r n t t') : t'.link.Passed ↔ t.link.Passed := by
  cases move with
  | updated _ ok => exact updatePassed shaped ok
  | completed _ ok => obtain ⟨-,rfl⟩ := Task.completeSource ok; rfl
  | cancelled _ ok => obtain ⟨-,rfl⟩ := Task.cancelSource ok; rfl
  | reopened _ ok => obtain ⟨-,rfl⟩ := Task.reopenSource ok; rfl
  | assigned _ ok => obtain ⟨-,rfl⟩ := Task.assignSource ok; rfl
  | unassigned _ ok => obtain ⟨-,rfl⟩ := Task.unassignSource ok; rfl

theorem createdPassed {params : NewTask} {id : TaskId} {familyId : FamilyId} {member : FamilyMemberId}
    (ok : Task.create params id familyId n member = .ok t) : ¬ t.link.Passed := by
  unfold Task.create at ok
  obtain ⟨title,-,ok⟩ := bindSource ok
  obtain ⟨notes,-,ok⟩ := bindSource ok
  obtain ⟨rule,-,ok⟩ := bindSource ok
  split at ok <;> cases ok
  rintro ⟨ruled,head⟩
  cases ruled.symm.trans head

theorem changedNames (changed : Store.Changed intl s next t)
    (rows : ∀ id, id ≠ t.id → next.tasks.find id = s.tasks.find id) (id : TaskId) :
    next.HandedOver id ↔ s.HandedOver id := by
  obtain ⟨old,written,there,-,is⟩ := changed
  rw [handedFind,handedFind]
  constructor
  · rintro ⟨other,row,found,names⟩
    by_cases own : other = t.id
    · subst own
      obtain rfl := Option.some.inj (is.symm.trans found)
      exact ⟨t.id,old,there,names⟩
    · exact ⟨other,row,rows other own ▸ found,names⟩
  · rintro ⟨other,row,found,names⟩
    by_cases own : other = t.id
    · subst own
      obtain rfl := Option.some.inj (there.symm.trans found)
      exact ⟨t.id,_,is,names⟩
    · exact ⟨other,row,(rows other own).trans found,names⟩

theorem changedHanded (handed : s.Handed) (changed : Store.Changed intl s next t)
    (rows : ∀ id, id ≠ t.id → next.tasks.find id = s.tasks.find id)
    (passed : ∀ row, s.tasks.find t.id = some row → (t.link.Passed ↔ row.link.Passed)) : next.Handed := by
  intro id row there
  rw [changedNames changed rows]
  by_cases own : id = t.id
  · subst own
    have made := columnsPassed (changedColumns changed there)
    obtain ⟨old,-,found,-⟩ := changed
    rw [handed t.id old found,← passed old found,made]
  · exact handed id row (rows id own ▸ there)

theorem createdPasses {familyId : FamilyId} (chained : Chained s.issued s.links) (handed : s.Handed)
    (placed : Store.Placed intl s next familyId t) (rows : ∀ id, id ≠ t.id → next.tasks.find id = s.tasks.find id)
    (unnamed : t.predecessorId = none) (unpassed : ¬ t.link.Passed) : next.Handed := by
  have own := placed
  obtain ⟨written,fresh,-,is⟩ := placed
  have names : ∀ id, next.HandedOver id ↔ s.HandedOver id := by
    intro id
    rw [handedFind,handedFind]
    constructor
    · rintro ⟨other,row,found,named⟩
      by_cases new : other = t.id
      · subst new
        obtain rfl := Option.some.inj (is.symm.trans found)
        cases unnamed.symm.trans named
      · exact ⟨other,row,rows other new ▸ found,named⟩
    · rintro ⟨other,row,found,named⟩
      have old : other ≠ t.id := by
        rintro rfl
        cases fresh.symm.trans found
      exact ⟨other,row,(rows other old).trans found,named⟩
  intro id row there
  rw [names]
  by_cases new : id = t.id
  · subst new
    refine iff_of_false (fun handed => ?_) (fun passed => unpassed ((columnsPassed (placedColumns own there)).mp passed))
    obtain ⟨old,found⟩ := handedThere chained handed
    cases fresh.symm.trans found
  · exact handed id row (rows id new ▸ there)

/- The head's row names what it named, and the successor's names the head. -/
theorem handOverNames {successor : Task} {familyId : FamilyId} (changed : Store.Changed intl s next t.relinquishHead)
    (placed : Store.Placed intl s next familyId successor) (names : successor.predecessorId = some t.id)
    (rows : ∀ id, id ≠ t.id → id ≠ successor.id → next.tasks.find id = s.tasks.find id) (id : TaskId) :
    next.HandedOver id ↔ s.HandedOver id ∨ id = t.id := by
  obtain ⟨written,fresh,-,is⟩ := placed
  obtain ⟨old,written',before,-,after⟩ := changed
  rw [handedFind,handedFind]
  constructor
  · rintro ⟨other,row,found,named⟩
    by_cases new : other = successor.id
    · subst new
      obtain rfl := Option.some.inj (is.symm.trans found)
      exact .inr (Option.some.inj (named.symm.trans names))
    by_cases head : other = t.id
    · subst head
      obtain rfl := Option.some.inj (after.symm.trans found)
      exact .inl ⟨t.id,old,before,named⟩
    · exact .inl ⟨other,row,rows other head new ▸ found,named⟩
  · rintro (⟨other,row,found,named⟩ | rfl)
    · have known : other ≠ successor.id := by
        rintro rfl
        cases fresh.symm.trans found
      by_cases head : other = t.id
      · subst head
        obtain rfl := Option.some.inj (before.symm.trans found)
        exact ⟨t.id,_,after,named⟩
      · exact ⟨other,row,(rows other head known).trans found,named⟩
    · exact ⟨successor.id,_,is,names⟩

theorem successorRuled {now : Instant} {due : Due} (found : successorDueOf intl t now = some (.ok (some due))) :
    t.recurrenceRule.isSome = true := by
  by_contra none_
  unfold successorDueOf at found
  rw [Option.not_isSome_iff_eq_none.mp none_] at found
  obtain ⟨_,-,found⟩ := Option.bind_eq_some_iff.mp found
  split at found <;> simp_all

theorem handOverHanded {familyId : FamilyId} {now : Instant} {due : Due} {member : FamilyMemberId}
    (chained : Chained s.issued s.links) (handed : s.Handed) (drawn : t.id ≠ s.issued)
    (found : successorDueOf intl t now = some (.ok (some due))) (changed : Store.Changed intl s next t.relinquishHead)
    (placed : Store.Placed intl s next familyId (Task.successorOf s.issued t due member))
    (rows : ∀ id, id ≠ t.id → id ≠ s.issued → next.tasks.find id = s.tasks.find id) : next.Handed := by
  intro id row there
  rw [handOverNames changed placed rfl rows]
  by_cases head : id = t.id
  · subst head
    have ruled : t.recurrenceRule.isSome = true := successorRuled found
    exact iff_of_true (.inr rfl) ((columnsPassed (changedColumns changed there)).mpr ⟨ruled,rfl⟩)
  by_cases new : id = s.issued
  · subst new
    refine iff_of_false (fun either => ?_) (fun passed => ?_)
    · rcases either with handed | same
      · obtain ⟨-,fresh,-⟩ := placed
        obtain ⟨old,there'⟩ := handedThere chained handed
        cases fresh.symm.trans there'
      · exact drawn same.symm
    · cases ((columnsPassed (placedColumns placed there)).mp passed).2
  · rw [or_iff_left head]
    exact handed id row (rows id head new ▸ there)

theorem effectHanded {reply : Reply} (standing : s.Standing intl) (handed : s.Handed)
    (view : readLocked s (.member r) = .ok (some t)) (effect : Effect intl s r t reply next) : next.Handed := by
  obtain ⟨row,there,link,-⟩ := viewRow view
  have listed : row.link ∈ s.links := List.mem_map_of_mem (Table.findSource there).1
  have shaped : t.link.Shaped := standing.chained.shaped _ (link ▸ listed)
  cases effect with
  | kept tasks =>
    intro id row found
    unfold Store.HandedOver
    rw [tasks] at found ⊢
    exact handed id row found
  | moved move changed rows =>
    refine changedHanded handed changed rows (fun old found => ?_)
    rw [(movedKeeps move).1] at found
    obtain rfl := Option.some.inj (there.symm.trans found)
    rw [movedPassed shaped move,link]
  | @handed t' due _ move found changed placed rows =>
    have own : t'.id = t.id := (movedKeeps move).1
    have drawn : t'.id ≠ s.issued := by
      intro same
      have below := standing.chained.ids _ listed
      rw [show row.link.id = s.issued from (congrArg Link.id link).trans (own.symm.trans same)] at below
      exact lt_irrefl _ below
    exact handOverHanded standing.chained handed drawn found changed placed rows

theorem workHanded (standing : s.Standing intl) (handed : s.Handed) :
    (writeLocked intl s w (readLocked s w)).2.Handed := by
  have did : Did intl s w _ _ := writeDid rfl
  generalize (writeLocked intl s w (readLocked s w)).1 = outcome at did
  generalize (writeLocked intl s w (readLocked s w)).2 = next at did
  cases did with
  | created _ ok placed rows =>
    exact createdPasses standing.chained handed placed rows (Task.createSource ok).2.2.2.predecessor (createdPassed ok)
  | worked _ view _ effect => exact effectHanded standing handed view effect
  | refused _ tasks =>
    intro id row found
    unfold Store.HandedOver
    rw [tasks] at found ⊢
    exact handed id row found
  | @reported r t dueAt _ _ view _ _ changed rows =>
    obtain ⟨row,there,link,-⟩ := viewRow view
    refine changedHanded handed changed rows (fun old found => ?_)
    obtain rfl := Option.some.inj (there.symm.trans found)
    rw [link]
    exact Iff.rfl
  | unreported => exact handed

theorem reachedHanded (reached : Reached intl s) : s.Handed := by
  obtain ⟨moves,last,ran,rfl⟩ := reached
  have within : ∀ w : Work, .begin w ∈ moves → (fun _ : Work => True) w := fun _ _ => trivial
  obtain ⟨serial,requests⟩ := RowLock.runSerial worksFramed within ran
  have empty : Store.empty.Handed := by
    intro id row found
    cases found
  refine (serial.keeps (fun s => s.Standing intl ∧ s.Handed) (fun _ => True) (fun _ => True)
    (fun e read made _ both => ?_) requests ⟨emptyStanding,empty⟩).1.2
  have kept := workStanding (w := e.request) both.1
  have kept' := workHanded (w := e.request) both.1 both.2
  rw [show readLocked e.before e.request = e.view from read.symm,
    show writeLocked intl e.before e.request e.view = (e.outcome,e.after) from made] at kept kept'
  exact ⟨⟨kept,kept'⟩,trivial⟩

theorem titleAccepts {e : Task.Edit} (valid : ∀ raw, patch.title = some raw → ∃ title, validateTitle raw = .ok title) :
    ∃ e', Task.updateTitle patch e = .ok e' := by
  unfold Task.updateTitle
  cases named : patch.title with
  | none => exact ⟨e,rfl⟩
  | some raw =>
    obtain ⟨title,is⟩ := valid raw named
    simp only [is]
    exact ⟨_,rfl⟩

theorem notesAccepts {e : Task.Edit} (valid : ∀ raw, patch.notes = some raw → ∃ notes, normaliseNotes raw = .ok notes) :
    ∃ e', Task.updateNotes patch e = .ok e' := by
  unfold Task.updateNotes
  cases named : patch.notes with
  | none => exact ⟨e,rfl⟩
  | some raw =>
    obtain ⟨notes,is⟩ := valid raw named
    simp only [is]
    exact ⟨_,rfl⟩

theorem namesStages (names : NamesRule intl t patch rule) (open_ : t.isOpen = true) : ∃ dated : Task.Edit,
    Details { t with due := patch.due.getD t.due } dated.1 ∧ t.update intl patch n = some (do
      let edited ← Task.updateRecurrence patch n dated
      Task.finish t edited) := by
  obtain ⟨titled,title⟩ := titleAccepts (e := (t,[])) names.title
  obtain ⟨noted,notes⟩ := notesAccepts (e := titled) names.notes
  have details := (Task.titleSource title).trans (Task.notesSource notes)
  have due : (Task.updateCategory patch (Task.updatePriority patch noted)).1.due = t.due := by
    obtain ⟨_,_,_,_,same⟩ := details
    simp only [Task.updateCategory,Task.updatePriority,Task.noteChange,same]
  obtain ⟨dated,is⟩ : ∃ dated, Task.updateDue intl patch (Task.updateCategory patch (Task.updatePriority patch noted)) =
      some dated := by
    unfold Task.updateDue
    cases named : patch.due with
    | none => exact ⟨_,rfl⟩
    | some value =>
      obtain ⟨same,told⟩ := names.moments value named
      simp only [due,told]
      exact ⟨_,rfl⟩
  refine ⟨dated,?_,?_⟩
  · rw [Task.dueSource is,due]
    obtain ⟨_,_,_,_,same⟩ := details
    simp only [Task.updateCategory,Task.updatePriority,Task.noteChange,same]
    exact ⟨_,_,_,_,rfl⟩
  · have whole : (do
        let titled ← Task.updateTitle patch (t,[])
        Task.updateNotes patch titled) = .ok noted := by
      rw [title]
      exact notes
    unfold Task.update
    rw [if_neg (by simp [open_]),whole]
    simp only [is]
    rfl

theorem namesUpdate (names : NamesRule intl t patch rule) (open_ : t.isOpen = true) :
    if t.recurrenceRule.map toText = some rule.toText then
      ∃ t' changed, t.update intl patch n = some (.ok (t',changed))
    else if t.seriesId.isSome = true ∧ t.isSeriesHead = false then t.update intl patch n = some (t.refuse "edit")
    else ∃ t' changed, t.update intl patch n = some (.ok (t',changed)) ∧ HeadWith t' rule := by
  obtain ⟨dated,details,is⟩ := @namesStages intl t patch rule n names open_
  obtain ⟨text,named,parsed⟩ := names.rule
  obtain ⟨due,there⟩ := Option.isSome_iff_exists.mp names.due
  obtain ⟨task,groups⟩ := dated
  obtain ⟨title,notes,priority,category,same⟩ := details
  simp only at same
  subst same
  have finishes : ∀ (edited : Task) (groups : List ChangedFieldGroup), edited.due = some due →
      ∃ t' changed, Task.finish t (edited,groups) = .ok (t',changed) ∧ (groups ≠ [] → t' = Task.commit edited) := by
    intro edited groups dated
    simp only [Task.finish,dated,Option.isNone_some,Bool.and_false,Bool.false_eq_true,if_false]
    by_cases none_ : groups = []
    · exact ⟨t,[],by rw [if_pos none_],fun some_ => absurd none_ some_⟩
    · exact ⟨_,_,by rw [if_neg none_],fun _ => rfl⟩
  rw [is]
  simp only [Task.updateRecurrence,named,parseRule,parsed,Except.map,bind,Except.bind,Option.map_some]
  split
  · obtain ⟨t',changed,finished,-⟩ := finishes
      { t with title := title, notes := notes, priority := priority, category := category, due := patch.due.getD t.due }
      groups there
    exact ⟨t',changed,congrArg some finished⟩
  · by_cases former : t.seriesId.isSome = true ∧ t.isSeriesHead = false
    · rw [if_pos former]
      simp only [former.1,former.2,Bool.not_false,Bool.and_self,if_true]
      rfl
    · rw [if_neg former]
      have free : ¬ (t.seriesId.isSome && !t.isSeriesHead) = true := by simpa using former
      have some_ : Task.change groups .recurrence ≠ [] := by
        unfold Task.change
        split
        · rename_i mem
          exact List.ne_nil_of_mem mem
        · simp
      obtain ⟨t',changed,finished,committed⟩ := finishes
        { t with title := title, notes := notes, priority := priority, category := category, due := some due,
                 recurrenceRule := some rule, recurrenceAnchor := some (dueLocalDateTime due),
                 seriesId := t.seriesId.or (some n), isSeriesHead := true } (Task.change groups .recurrence) rfl
      rw [if_neg free]
      simp only [there]
      refine ⟨t',changed,congrArg some finished,?_⟩
      rw [committed some_]
      exact ⟨rfl,by simp [Task.commit],rfl,due,rfl,rfl⟩

theorem foundLocked {taskId : TaskId} {version : Option Nat}
    (found : lockVisibleTask s r taskId version = .ok (.ok t)) : s.lockById r.familyId taskId = .ok (some t) := by
  obtain ⟨seen,locked,visible⟩ := bindSource found
  obtain rfl : seen = some t := by
    cases seen with
    | none => cases visible
    | some task =>
      simp only at visible
      split at visible
      · cases visible
      split at visible <;> cases visible
      rfl
  exact locked

theorem editRefuses (refused : updateLocked intl s patch t = .ok (t.refuse "edit")) (t' : Task)
    (changed : List ChangedFieldGroup) : t.update intl patch s.issued ≠ some (.ok (t',changed)) := by
  intro accepted
  rw [updateLocked,accepted] at refused
  simp only [orThrow,bind,Except.bind] at refused
  split at refused
  · cases refused
  · obtain ⟨_,-,refused⟩ := bindSource refused
    cases refused

/- A task in a series with no rule has never handed its series on, and is refused. -/
theorem unruledRefused (names : NamesRule intl t patch rule) (open_ : t.isOpen = true) (shaped : t.link.Shaped)
    (series : t.seriesId.isSome = true) (none_ : t.recurrenceRule = none) :
    t.update intl patch n = some (t.refuse "edit") := by
  have headless : t.isSeriesHead = false := by
    by_contra head
    have ruled : t.recurrenceRule.isSome = true := shaped.head (show t.isSeriesHead = true by simpa using head)
    rw [none_] at ruled
    cases ruled
  have outcome := @namesUpdate intl t patch rule n names open_
  rwa [if_neg (by rw [none_]; simp),if_pos ⟨series,headless⟩] at outcome

theorem heldTaken (names : NamesRule intl t patch rule) (open_ : t.isOpen = true)
    (former : t.seriesId.isSome = true ∧ t.isSeriesHead = false → s.HandedOver t.id) :
    (updateLocked intl s patch t = .ok (t.refuse "edit") → s.HandedOver t.id) ∧
      (¬ s.HandedOver t.id → ∃ t' changed, t.update intl patch s.issued = some (.ok (t',changed)) ∧
        (t.recurrenceRule.map toText ≠ some rule.toText → HeadWith t' rule)) := by
  have outcome := @namesUpdate intl t patch rule s.issued names open_
  refine ⟨fun refused => ?_,fun free => ?_⟩
  · by_contra free
    split at outcome
    · obtain ⟨t',changed,accepted⟩ := outcome
      exact editRefuses refused t' changed accepted
    · rw [if_neg (fun is => free (former is))] at outcome
      obtain ⟨t',changed,accepted,-⟩ := outcome
      exact editRefuses refused t' changed accepted
  · split at outcome
    · rename_i alike
      obtain ⟨t',changed,accepted⟩ := outcome
      exact ⟨t',changed,accepted,fun differ => absurd alike differ⟩
    · rw [if_neg (fun is => free (former is))] at outcome
      obtain ⟨t',changed,accepted,head⟩ := outcome
      exact ⟨t',changed,accepted,fun _ => head⟩

/-- An open task with a due takes the rule that a patch names, or refuses it as a former head, if and
only if it is no task that was in a series and had its rule taken away. -/
theorem ruleTaken (intl : Intl) (s : Store) (reached : Reached intl s) (r : Request) (version : Nat) (t : Task)
    (found : lockVisibleTask s r t.id (some version) = .ok (.ok t)) (open_ : t.isOpen = true) (patch : TaskPatch)
    (rule : RecurrenceRule) (names : NamesRule intl t patch rule) :
    RuleTaken intl s r version t patch rule ↔ ¬ (t.seriesId.isSome = true ∧ t.recurrenceRule = none) := by
  obtain ⟨row,there,link,-⟩ := lockRow (foundLocked found)
  have shaped : t.link.Shaped :=
    (reachedStanding reached).chained.shaped _ (link ▸ List.mem_map_of_mem (Table.findSource there).1)
  have handed : s.HandedOver t.id ↔ t.recurrenceRule.isSome = true ∧ t.isSeriesHead = false := by
    rw [reachedHanded reached t.id row there,link]
    exact Iff.rfl
  have command : updateTask intl s r t.id version patch = updateLocked intl s patch t := by
    unfold updateTask whenLocked
    rw [found]
    rfl
  constructor
  · rintro taken ⟨series,none_⟩
    obtain ⟨t',changed,accepted,-⟩ := taken.taken (by rw [handed,none_]; simp)
    cases accepted.symm.trans (unruledRefused names open_ shaped series none_)
  · intro kept
    -- What has a series and is no head still has its rule, and so was handed on.
    have former : t.seriesId.isSome = true ∧ t.isSeriesHead = false → s.HandedOver t.id := fun ⟨series,head⟩ =>
      handed.mpr ⟨Option.isSome_iff_ne_none.mpr (fun none_ => kept ⟨series,none_⟩),head⟩
    obtain ⟨refused,free⟩ := heldTaken names open_ former
    exact ⟨fun refuses => refused (command ▸ refuses),free⟩

end

def ruleMoves (rule : Option String) : List (RowLock.Move Work) :=
  [.begin (choreOf (.createTask ⟨"Bins",none,none,none,some (.date ⟨2026,9,30⟩ "Europe/London"),rule,[]⟩) 1 []),.lock 0]

def unruledMoves : List (RowLock.Move Work) :=
  ruleMoves (some "FREQ=WEEKLY") ++
    [.begin (choreOf (.updateTask 0 1 ⟨none,none,none,none,none,some none⟩) 1 []),.lock 1,.commit 1]

def addsWeekly : TaskPatch := ⟨none,none,none,none,none,some (some "FREQ=WEEKLY")⟩

def weeklyRequest (version : Nat) : Request := ⟨.updateTask 0 version addsWeekly,0,1,[],[1],3000,3000⟩

def bins (series : Option TaskSeriesId) (version : Nat) : Task :=
  ⟨0,0,"Bins",none,.normal,none,some (.date ⟨2026,9,30⟩ "Europe/London"),none,none,series,none,false,.opened,none,[],
    some 1,version⟩

theorem addsRule (series : Option TaskSeriesId) (version : Nat) {rule : RecurrenceRule}
    (parsed : parse "FREQ=WEEKLY" = .ok rule) : NamesRule everywhereUtc (bins series version) addsWeekly rule :=
  ⟨⟨"FREQ=WEEKLY",rfl,parsed⟩,rfl,fun _ named => (by cases named),fun _ named => (by cases named),
    fun _ named => (by cases named)⟩

theorem weeklyTaken : ∃ rule, parse "FREQ=WEEKLY" = .ok rule ∧
    RuleTaken everywhereUtc (storeAfter everywhereUtc (ruleMoves none)) (weeklyRequest 1) 1 (bins none 1) addsWeekly rule := by
  have ok : (parse "FREQ=WEEKLY").isOk = true := by decide +kernel
  cases parsed : parse "FREQ=WEEKLY" with
  | error e =>
    rw [parsed] at ok
    cases ok
  | ok rule =>
    exact ⟨rule,rfl,(ruleTaken everywhereUtc _ (storeReached (by decide +kernel)) (weeklyRequest 1) 1 (bins none 1)
      (by decide +kernel) rfl addsWeekly rule (addsRule none 1 parsed)).mpr (by decide)⟩

/- Nobody names the chore, but it has stayed in its series. -/
theorem weeklyRefused : ¬ ∀ (intl : Intl) (s : Store), Reached intl s → ∀ (r : Request) (version : Nat) (t : Task),
    lockVisibleTask s r t.id (some version) = .ok (.ok t) → t.isOpen = true → ∀ (patch : TaskPatch)
      (rule : RecurrenceRule), NamesRule intl t patch rule → RuleTaken intl s r version t patch rule := by
  intro all
  have ok : (parse "FREQ=WEEKLY").isOk = true := by decide +kernel
  cases parsed : parse "FREQ=WEEKLY" with
  | error e =>
    rw [parsed] at ok
    cases ok
  | ok rule =>
    have taken := all everywhereUtc (storeAfter everywhereUtc unruledMoves) (storeReached (by decide +kernel))
      (weeklyRequest 2) 2 (bins (some 0) 2) (by decide +kernel) rfl addsWeekly rule (addsRule (some 0) 2 parsed)
    exact absurd (taken.refused (by decide +kernel)) (by decide +kernel)

end FamilyPlatform.Tasks
