import FamilyPlatform.Tasks.Series
import FamilyPlatform.Tasks.Works

/-! Every transaction on the task tables starts a series, edits a link of one, or hands
one on; so the tables hold whole chains after every run. -/
namespace FamilyPlatform.Tasks
open Chain (Linked)

def Task.link (t : Task) : Link where
  id := t.id
  seriesId := t.seriesId
  predecessorId := t.predecessorId
  isSeriesHead := t.isSeriesHead
  ruled := t.recurrenceRule.isSome
  anchored := t.recurrenceAnchor.isSome
  dated := t.due.isSome

def TaskRow.link (r : TaskRow) : Link where
  id := r.id
  seriesId := r.seriesId
  predecessorId := r.predecessorId
  isSeriesHead := r.isSeriesHead
  ruled := r.recurrenceRule.isSome
  anchored := r.recurrenceAnchor.isSome
  dated := r.dueKind ≠ .none

def Store.links (s : Store) : List Link := s.tasks.rows.map TaskRow.link

/- What a transaction may fail with: never an index or a constraint on series. -/
def Thrown.Expected : Thrown → Prop
  | .uniqueViolation _ | .seriesInvariantViolated _ | .stillFlaggedHead => False
  | .checkViolation constraint =>
    constraint ≠ "task_recurrence_shape" ∧ constraint ≠ "task_head_is_in_a_series"
  | .rangeError | .unparsableRule | .foreignKeyViolation _ | .assigneeNotInFamily => True

def Meets {α : Type} (post : α → Prop) : Except Thrown α → Prop
  | .ok value => post value
  | .error e => e.Expected

theorem Meets.bind {α β : Type} {p : α → Prop} {q : β → Prop} {x : Except Thrown α} {f : α → Except Thrown β}
    (first : Meets p x) (after : ∀ a, p a → Meets q (f a)) : Meets q (x >>= f) := by
  cases x with
  | error e => exact first
  | ok a => exact after a first

theorem Meets.weaken {α : Type} {p q : α → Prop} {x : Except Thrown α} (meets : Meets p x)
    (implies : ∀ a, p a → q a) : Meets q x := by
  cases x with
  | error e => exact meets
  | ok a => exact implies a meets

theorem meetsOrThrow {α : Type} (x : Option α) : Meets (fun a => x = some a) (orThrow x) := by
  cases x <;> trivial

theorem meetsAggregate (row : TaskRow) (assignees : List FamilyMemberId) :
    Meets (fun t => t.link = row.link) (toAggregate row assignees) := by
  have rule : Meets (fun rule => rule.isSome = row.recurrenceRule.isSome) (storedRule row) := by
    unfold storedRule
    split
    · rename_i none
      simp [Meets,none]
    · rename_i text stored
      cases RecurrenceRule.parse text <;> simp [Meets,Thrown.Expected,stored]
  have due : ∀ due, toDue row = some due → due.isSome = decide (row.dueKind ≠ .none) := by
    intro due read
    unfold toDue at read
    split at read <;> cases read <;> simp_all
  refine rule.bind (fun rule sameRule => (meetsOrThrow _).bind (fun found read =>
    (meetsOrThrow _).bind (fun state _ => ?_)))
  change Task.link _ = row.link
  simp only [Task.link,TaskRow.link,sameRule,due found read]

theorem meetsConvert {α β : Type} (f : α → Option β) (x : Option α) :
    Meets (fun y => y.isSome = x.isSome) (convert f x) := by
  cases x with
  | none => rfl
  | some value => exact (meetsOrThrow _).weaken (fun y converted => by
      obtain ⟨b,-,rfl⟩ := Option.map_eq_some_iff.mp converted
      rfl)

theorem meetsColumns (intl : ZonedTime.Intl) (t : Task) : Meets (fun written => ∀ row : TaskRow,
    row.id = t.id → row.predecessorId = t.predecessorId →
    TaskRow.link { row with toTaskColumns := written } = t.link) (columns intl t) := by
  refine (meetsConvert _ _).bind (fun date _ => (meetsConvert _ _).bind (fun time _ =>
    (meetsOrThrow _).bind (fun moment _ => (meetsConvert _ _).bind (fun anchor same => ?_))))
  intro row id predecessor
  cases due : t.due with
  | none => simp [TaskRow.link,Task.link,due,same,id,predecessor]
  | some value => cases value <;> simp [TaskRow.link,Task.link,due,same,id,predecessor,Due.kind]

theorem meetsLock (s : Store) (familyId : FamilyId) (taskId : TaskId) :
    Meets (fun found => ∀ t, found = some t → t.link ∈ s.links ∧ t.id = taskId)
      (s.lockById familyId taskId) := by
  unfold Store.lockById
  split
  · simp [Meets]
  · rename_i row found
    obtain ⟨source,-⟩ := Option.filter_eq_some_iff.mp found
    obtain ⟨mem,id⟩ := Table.findSource source
    have loaded := meetsAggregate row (s.assigneesOf taskId)
    cases read : toAggregate row (s.assigneesOf taskId) with
    | error e => rw [read] at loaded; exact loaded
    | ok task =>
      rw [read] at loaded
      rintro t ⟨⟩
      exact ⟨loaded ▸ List.mem_map_of_mem mem,(congrArg Link.id loaded).trans id⟩

theorem shapedChecks {row : TaskRow} (shaped : row.link.Shaped) :
    recurrenceShape row ∧ headIsInASeries row := by
  have anchor : row.recurrenceAnchor.isSome = row.recurrenceRule.isSome := shaped.anchor
  have series : row.recurrenceRule.isSome → row.seriesId.isSome := shaped.series
  have head : row.isSeriesHead → row.recurrenceRule.isSome := shaped.head
  have dated : row.recurrenceRule.isSome → row.dueKind ≠ .none := by simpa [TaskRow.link] using shaped.dated
  cases rule : row.recurrenceRule <;> cases moment : row.recurrenceAnchor <;>
    simp_all [recurrenceShape,headIsInASeries]

theorem failedExpected {row : TaskRow} {constraint : String} (shaped : row.link.Shaped)
    (failed : failedCheck row = some constraint) : (Thrown.checkViolation constraint).Expected := by
  obtain ⟨check,found,rfl⟩ := Option.map_eq_some_iff.mp failed
  have mem := List.mem_of_find?_eq_some found
  have fails := List.find?_some found
  obtain ⟨recurrence,head⟩ := shapedChecks shaped
  simp only [checks,List.mem_cons,List.not_mem_nil,or_false] at mem
  rcases mem with rfl | rfl | rfl | rfl | rfl | rfl | rfl <;> simp_all [Thrown.Expected]

theorem violatedNone {others : List TaskRow} {row : TaskRow}
    (free : Unviolated (others.map TaskRow.link) row.link) : violatedIndex others row = none := by
  have predecessor : ¬ (row.predecessorId.isSome && others.any (fun r => r.predecessorId = row.predecessorId)) := by
    simp only [Bool.and_eq_true,List.any_eq_true,decide_eq_true_eq,not_and,not_exists]
    intro some_ r mem same
    exact free.predecessor r.link (List.mem_map_of_mem mem) (Option.isSome_iff_ne_none.mp some_) same
  have head : ¬ (row.isSeriesHead && row.seriesId.isSome &&
      others.any (fun r => r.isSeriesHead && r.seriesId = row.seriesId)) := by
    simp only [Bool.and_eq_true,List.any_eq_true,decide_eq_true_eq,not_and,not_exists]
    intro ⟨flagged,some_⟩ r mem flagged' same
    exact free.head flagged (Option.isSome_iff_ne_none.mp some_) r.link (List.mem_map_of_mem mem) flagged' same
  rw [violatedIndex,if_neg predecessor,if_neg head]

theorem meetsPermit {others : List TaskRow} {row : TaskRow} (shaped : row.link.Shaped)
    (free : Unviolated (others.map TaskRow.link) row.link) : Meets (fun _ => True) (permit others row) := by
  unfold permit
  rw [violatedNone free]
  cases failed : failedCheck row with
  | none => trivial
  | some constraint => exact failedExpected shaped failed

theorem meetsInsert {intl : ZonedTime.Intl} {s : Store} {familyId : FamilyId} {t : Task} {issued : Nat}
    (chained : Chained issued (s.links ++ [t.link])) :
    Meets (fun next => next.links = s.links ++ [t.link] ∧ next.issued = s.issued)
      (s.insert intl familyId t) := by
  refine (meetsColumns intl t).bind (fun written linked => ?_)
  have link := linked { written with id := t.id, familyId := familyId, predecessorId := t.predecessorId,
                                     createdByMemberId := t.createdByMemberId } rfl rfl
  have fresh : ∀ r ∈ s.tasks.rows, r.id ≠ t.id := by
    intro r mem same
    have distinct := chained.distinct
    rw [List.map_append,List.nodup_append] at distinct
    exact distinct.2.2 r.id (List.mem_map.mpr ⟨r.link,List.mem_map_of_mem mem,rfl⟩) t.id (by simp [Task.link]) same
  have free : Unviolated (s.tasks.rows.map TaskRow.link) t.link := by
    refine chained.unviolated (by simp) (fun o source => ⟨List.mem_append_left _ source,?_⟩)
    obtain ⟨r,mem,rfl⟩ := List.mem_map.mp source
    exact fresh r mem
  refine (meetsPermit (link ▸ chained.shaped _ (by simp)) (link ▸ free)).bind (fun _ _ => ?_)
  split
  · split
    · rename_i tasks inserted
      simp only [Meets,pure,Except.pure,Store.links,(Table.insertRows inserted).1,List.map_append,
        List.map_singleton,and_true]
      exact congrArg (fun l => _ ++ [l]) link
    · rename_i refused
      have inserts (row : TaskRow) (same : row.id = t.id) : ∃ tasks, s.tasks.insert row = some tasks :=
        Table.insertFresh (same ▸ fresh)
      obtain ⟨tasks,inserted⟩ := inserts { written with
        id := t.id, familyId := familyId, predecessorId := t.predecessorId,
        createdByMemberId := t.createdByMemberId } rfl
      cases inserted.symm.trans refused
  · trivial

theorem meetsSave {intl : ZonedTime.Intl} {s : Store} {t : Task} {a : Link} {issued : Nat} (mem : a ∈ s.links)
    (id : t.id = a.id) (predecessor : t.predecessorId = a.predecessorId)
    (chained : Chained issued (replace s.links t.link)) :
    Meets (fun next => next.links = replace s.links t.link ∧ next.issued = s.issued) (s.save intl t) := by
  obtain ⟨row,source,rfl⟩ := List.mem_map.mp mem
  have found : s.tasks.find t.id = some row := by
    rw [show t.id = row.id from id]
    exact Table.findMember source
  refine (meetsColumns intl t).bind (fun written linked => ?_)
  have link : TaskRow.link { row with toTaskColumns := written } = t.link := linked row id.symm predecessor.symm
  rw [found]
  have there : t.link ∈ replace s.links t.link := List.mem_map.mpr ⟨row.link,mem,if_pos id.symm⟩
  have free : Unviolated ((s.tasks.rows.filter (fun r => r.id ≠ t.id)).map TaskRow.link) t.link := by
    refine chained.unviolated there (fun o others => ?_)
    obtain ⟨r,kept,rfl⟩ := List.mem_map.mp others
    obtain ⟨old,other⟩ := List.mem_filter.mp kept
    have apart : r.link.id ≠ t.link.id := of_decide_eq_true other
    exact ⟨List.mem_map.mpr ⟨r.link,List.mem_map_of_mem old,if_neg apart⟩,apart⟩
  refine (meetsPermit (link ▸ chained.shaped _ there) (link ▸ free)).bind (fun _ _ => ?_)
  refine ⟨?_,rfl⟩
  simp only [Store.links,Table.update,replace,List.map_map]
  refine List.map_congr_left (fun r old => ?_)
  simp only [Function.comp]
  by_cases at_ : r.id = t.id
  · have same : r = row := Table.equalOfKey old source (at_.trans id)
    rw [if_pos at_,if_pos (show r.link.id = t.link.id from at_),same]
    exact link
  · rw [if_neg at_,if_neg (show ¬ r.link.id = t.link.id from at_)]

theorem meetsAssignments (s : Store) (familyMembers : List FamilyMemberId) (time : Instant) (taskId : TaskId)
    (members : List FamilyMemberId) : Meets (fun next => next.links = s.links ∧ next.issued = s.issued)
      (s.addAssignments familyMembers time taskId members) := by
  simp only [Store.addAssignments]
  split
  · exact ⟨rfl,rfl⟩
  · trivial

theorem createLink {params : NewTask} {id : TaskId} {familyId : FamilyId} {series : TaskSeriesId}
    {member : FamilyMemberId} {t : Task} (created : Task.create params id familyId series member = .ok t) :
    t.link.Shaped ∧ t.id = id ∧ t.predecessorId = none ∧ ∀ σ, t.seriesId = some σ → σ = series := by
  unfold Task.create at created
  obtain ⟨title,-,created⟩ := bindSource created
  obtain ⟨notes,-,created⟩ := bindSource created
  obtain ⟨rule,-,created⟩ := bindSource created
  split at created
  · cases created
  rename_i dated
  cases created
  have due : rule.isSome → params.due.isSome := by simpa [Option.isSome_iff_ne_none] using dated
  refine ⟨⟨⟨?_,?_,?_⟩,due⟩,rfl,rfl,?_⟩
  · cases rule with
    | none => rfl
    | some rule => simpa [Task.link] using due rfl
  · cases rule <;> simp [Task.link]
  · exact fun ruled => ruled
  · intro σ same
    cases rule with
    | none => cases same
    | some rule => exact (Option.some.inj same).symm

theorem recurrenceLink {patch : TaskPatch} {n : TaskSeriesId} {e e' : Task.Edit}
    (ok : Task.updateRecurrence patch n e = .ok e') (recurring : e.1.link.Recurring) :
    (e.1.link.Keeps e'.1.link ∨ e.1.link.Starts n e'.1.link) ∧ e'.1.link.Recurring := by
  have unchanged : (e.1.link.Keeps e.1.link ∨ e.1.link.Starts n e.1.link) ∧ e.1.link.Recurring :=
    ⟨.inl ⟨rfl,rfl,rfl,fun head => head⟩,recurring⟩
  obtain ⟨next,changed⟩ := e
  unfold Task.updateRecurrence at ok
  split at ok
  · cases ok
    exact unchanged
  obtain ⟨rule,-,ok⟩ := bindSource ok
  simp only at ok
  split at ok
  · cases ok
    exact unchanged
  split at ok
  · cases ok
  rename_i mayEdit
  split at ok
  · cases ok
    exact ⟨.inl ⟨rfl,rfl,rfl,by simp [Task.link]⟩,⟨rfl,by simp [Task.link],by simp [Task.link]⟩⟩
  · cases ok
  · cases ok
    cases series : next.seriesId with
    | none => exact ⟨.inr ⟨rfl,rfl,series,by simp [Task.link]⟩,⟨rfl,by simp [Task.link],by simp [Task.link]⟩⟩
    | some σ =>
      have head : next.isSeriesHead := by simpa [series] using mayEdit
      exact ⟨.inl ⟨rfl,rfl,by simp [Task.link,series],fun _ => head⟩,⟨rfl,by simp [Task.link],by simp [Task.link]⟩⟩

theorem updateLink {intl : ZonedTime.Intl} {t t' : Task} {patch : TaskPatch} {n : TaskSeriesId}
    {changed : List ChangedFieldGroup} (ok : t.update intl patch n = some (.ok (t',changed)))
    (shaped : t.link.Shaped) :
    (t.link.Keeps t'.link ∨ t.link.Starts n t'.link) ∧ t'.link.Shaped := by
  obtain ⟨-,titled,noted,dated,last,stages,finished⟩ := Task.updateStages ok
  rcases finished with ⟨-,rfl,-⟩ | ⟨-,rfl,-⟩
  · exact ⟨.inl ⟨rfl,rfl,rfl,fun head => head⟩,shaped⟩
  -- Only whether there is a due date may differ before the rule is edited.
  obtain ⟨date,before⟩ : ∃ date, dated.1.link = { t.link with dated := date } := by
    obtain ⟨_,_,_,_,before⟩ := stages.dated
    rw [before]
    exact ⟨_,rfl⟩
  obtain ⟨edit,recurring⟩ := recurrenceLink stages.recurrence (before ▸ ⟨shaped.anchor,shaped.series,shaped.head⟩)
  rw [before] at edit
  exact ⟨edit.imp (fun k => ⟨k.id,k.predecessor,k.series,k.head⟩) (fun s => ⟨s.id,s.predecessor,s.loose,s.series⟩),
    recurring,stages.recurs⟩

theorem completeLink {t t' : Task} {member : FamilyMemberId} {now : Instant}
    (ok : t.complete member now = .ok t') : t'.link = t.link := by
  unfold Task.complete at ok
  split at ok <;> cases ok
  rfl

theorem cancelLink {t t' : Task} {member : FamilyMemberId} {now : Instant}
    (ok : t.cancel member now = .ok t') : t'.link = t.link := by
  unfold Task.cancel at ok
  split at ok <;> cases ok
  rfl

theorem reopenLink {t t' : Task} (ok : t.reopen = .ok t') : t'.link = t.link := by
  unfold Task.reopen at ok
  split at ok <;> cases ok
  rfl

theorem assignLink {t t' : Task} {member : FamilyMemberId} (ok : t.assign member = .ok (some t')) :
    t'.link = t.link := by
  unfold Task.assign at ok
  split at ok
  · cases ok
  split at ok <;> cases ok
  rfl

theorem unassignLink {t t' : Task} {member : FamilyMemberId} (ok : t.unassign member = .ok (some t')) :
    t'.link = t.link := by
  unfold Task.unassign at ok
  split at ok
  · cases ok
  split at ok <;> cases ok
  rfl

theorem successorDueSource {intl : ZonedTime.Intl} {head : Task} {closedAt : Instant} {due : Due}
    (found : successorDueOf intl head closedAt = some (.ok (some due))) : head.isSeriesHead := by
  simp only [successorDueOf,bind,Option.bind_eq_some_iff] at found
  obtain ⟨dueAt,-,found⟩ := found
  split at found
  · assumption
  · cases found

def Leaves (issued : Nat) (named : Prop) (answer : Result (Reply × Store)) : Prop :=
  ∀ reply next, answer = .ok (reply,next) →
    Chained (issued + 1) next.links ∧ (named → reply.successor = none)

theorem leavesError {issued : Nat} {named : Prop} {e : DomainError} : Leaves issued named (.error e) := by
  intro reply next same
  cases same

theorem meetsUnaccompanied {issued : Nat} {named : Prop} {s : Store} {t : Task}
    (chained : Chained (issued + 1) s.links) : Meets (Leaves issued named) (unaccompanied s t) := by
  rintro reply next ⟨⟩
  exact ⟨chained,fun _ => rfl⟩

theorem meetsSaveAnd {intl : ZonedTime.Intl} {s : Store} {a t : Task} {issued n : Nat} {named : Prop}
    {after : Store → Task → Answer} (mem : a.link ∈ s.links) (id : t.id = a.id)
    (predecessor : t.predecessorId = a.predecessorId) (chained : Chained n (replace s.links t.link))
    (then_ : ∀ saved, saved.links = replace s.links t.link → saved.issued = s.issued →
      Meets (Leaves issued named) (after saved t)) :
    Meets (Leaves issued named) (saveAnd intl s (.ok t) after) :=
  (meetsSave mem id predecessor chained).bind (fun saved kept => then_ saved kept.1 kept.2)

theorem replaceSame {issued : Nat} {links : List Link} (c : Chained issued links) {l : Link} (mem : l ∈ links) :
    replace links l = links := by
  refine (List.map_congr_left (fun x source => ?_)).trans (List.map_id _)
  split
  · exact c.equalOfId mem source (Eq.symm (by assumption))
  · rfl

theorem meetsHandOver {intl : ZonedTime.Intl} {s : Store} {familyId : FamilyId} {head t : Task}
    (chained : Chained s.issued s.links) (mem : head.link ∈ s.links) (flagged : head.isSeriesHead)
    (id : t.link.id = s.issued) (shaped : t.link.Shaped) (predecessor : t.link.predecessorId = some head.id)
    (series : t.link.seriesId = head.seriesId) :
    Meets (fun next => Chained (s.issued + 1) next.links ∧ next.issued = s.issued)
      (s.handOverHead intl familyId head.relinquishHead t) := by
  have last := chained.successor mem flagged id shaped predecessor series
  have given : head.link.Keeps head.link.relinquished := ⟨rfl,rfl,rfl,by simp [Link.relinquished]⟩
  have shape := chained.shaped _ mem
  have between := chained.keeps mem given ⟨⟨shape.anchor,shape.series,by simp [Link.relinquished]⟩,shape.dated⟩
  have handed : Meets (fun next => Chained (s.issued + 1) next.links ∧ next.issued = s.issued)
      (do
        let saved ← s.save intl head.relinquishHead
        saved.insert intl familyId t) := by
    refine (meetsSave (t := head.relinquishHead) mem rfl rfl between).bind (fun saved kept => ?_)
    have after : Chained (s.issued + 1) (saved.links ++ [t.link]) := by
      rw [kept.1]
      exact last
    refine (meetsInsert after).weaken (fun next inserted => ?_)
    exact ⟨inserted.1 ▸ after,inserted.2.trans kept.2⟩
  unfold Store.handOverHead
  rw [if_neg (by simp [Task.relinquishHead])]
  simp only
  split
  · rename_i constraint failed
    rw [failed] at handed
    exact handed
  · exact handed

theorem meetsSpawn {intl : ZonedTime.Intl} {s : Store} {r : Request} {head : Task}
    (chained : Chained s.issued s.links) (mem : head.link ∈ s.links) :
    Meets (Leaves s.issued (head.isSeriesHead = false)) (spawnSuccessor intl s r head) := by
  refine (meetsOrThrow _).bind (fun found computed => ?_)
  split
  · exact leavesError
  · rintro reply next ⟨⟩
    exact ⟨chained.later (Nat.le_succ _),fun _ => rfl⟩
  · rename_i due
    have flagged := successorDueSource computed
    have shape := chained.shaped _ mem
    have shaped : (Task.successorOf s.issued head due r.memberId).link.Shaped :=
      ⟨⟨shape.anchor,shape.series,fun _ => shape.head flagged⟩,fun _ => rfl⟩
    refine (meetsHandOver chained mem flagged rfl shaped rfl rfl).bind (fun moved kept =>
      (meetsAssignments _ _ _ _ _).bind (fun last same => ?_))
    rintro reply next ⟨⟩
    refine ⟨same.1 ▸ kept.1,fun unflagged => ?_⟩
    rw [unflagged] at flagged
    cases flagged

theorem meetsWhenLocked {s : Store} {r : Request} {taskId : TaskId} {version : Option Nat} {issued : Nat}
    {named : Prop} {work : Task → Answer}
    (each : ∀ t, t.link ∈ s.links → t.id = taskId → Meets (Leaves issued named) (work t)) :
    Meets (Leaves issued named) (whenLocked s r taskId version work) := by
  have locked : Meets (fun found => ∀ t, found = .ok t → t.link ∈ s.links ∧ t.id = taskId)
      (lockVisibleTask s r taskId version) := by
    refine (meetsLock s r.familyId taskId).bind (fun found source => ?_)
    split
    · simp [Meets,pure,Except.pure]
    · rename_i task
      split
      · simp [Meets,pure,Except.pure]
      split
      · simp [Meets,pure,Except.pure]
      · rintro t ⟨⟩
        exact source _ rfl
  refine locked.bind (fun found source => ?_)
  split
  · exact leavesError
  · exact each _ (source _ rfl).1 (source _ rfl).2

def Named (s : Store) (r : Request) : Prop :=
  ∃ id, r.command.taskId = some id ∧ ∃ l ∈ s.links, l.predecessorId = some id

section
variable {intl : ZonedTime.Intl} {s : Store} {r : Request} (chained : Chained s.issued s.links)
include chained

theorem meetsSame {a t : Task} {named : Prop} {after : Store → Task → Answer} {kept : Store}
    (mem : a.link ∈ kept.links) (links : kept.links = s.links) (issued : kept.issued = s.issued)
    (same : t.link = a.link)
    (then_ : ∀ saved, saved.links = s.links → saved.issued = s.issued → t.link ∈ s.links →
      Meets (Leaves s.issued named) (after saved t)) :
    Meets (Leaves s.issued named) (saveAnd intl kept (.ok t) after) := by
  have there : t.link ∈ s.links := by rw [same,← links]; exact mem
  have unchanged : replace kept.links t.link = s.links := by rw [links]; exact replaceSame chained there
  refine meetsSaveAnd mem (congrArg Link.id same) (congrArg Link.predecessorId same) (unchanged ▸ chained) ?_
  intro saved kept' issued'
  exact then_ saved (kept'.trans unchanged) (issued'.trans issued) there

theorem meetsClose {a t : Task} {taskId : TaskId} (mem : a.link ∈ s.links) (id : a.id = taskId)
    (same : t.link = a.link) (command : r.command.taskId = some taskId) :
    Meets (Leaves s.issued (Named s r)) (saveAnd intl s (.ok t) (fun saved => spawnSuccessor intl saved r)) := by
  refine meetsSame chained mem rfl rfl same (fun saved links issued there => ?_)
  have spawned : Meets (Leaves saved.issued (t.isSeriesHead = false)) (spawnSuccessor intl saved r t) :=
    meetsSpawn (by rw [links,issued]; exact chained) (links ▸ there)
  rw [issued] at spawned
  refine spawned.weaken (fun answer left reply next is => ⟨(left reply next is).1,?_⟩)
  rintro ⟨other,at_,l,source,names⟩
  cases command.symm.trans at_
  refine (left reply next is).2 (chained.namedNoHead there source ?_)
  rw [names,same]
  exact congrArg some id.symm

theorem meetsSteady {saved : Store} {t : Task} (links : saved.links = s.links) :
    Meets (Leaves s.issued (Named s r)) (unaccompanied saved t) :=
  meetsUnaccompanied (links ▸ chained.later (Nat.le_succ _))

theorem meetsCreate {params : NewTask} :
    Meets (Leaves s.issued (Named s r)) (createTask intl s r params) := by
  unfold createTask
  cases made : Task.create params s.issued r.familyId s.issued r.memberId with
  | error e => exact leavesError
  | ok t =>
    obtain ⟨shaped,id,predecessor,series⟩ := createLink made
    have after := chained.first id shaped predecessor series
    refine (meetsInsert after).bind (fun inserted kept => ?_)
    have added := meetsAssignments inserted r.familyMembers r.transactionTime t.id t.assignees
    split
    · exact leavesError
    · rename_i failed
      rw [failed] at added
      exact added
    · rename_i last ok
      rw [ok] at added
      exact meetsUnaccompanied (by rw [added.1,kept.1]; exact after)

theorem meetsUpdate {taskId : TaskId} {version : Option Nat} {patch : TaskPatch} :
    Meets (Leaves s.issued (Named s r)) (whenLocked s r taskId version (updateLocked intl s patch)) := by
  refine meetsWhenLocked (fun t mem _ => (meetsOrThrow _).bind (fun found updated => ?_))
  split
  · exact leavesError
  · rename_i t' changed
    obtain ⟨edit,shaped⟩ := updateLink updated (chained.shaped _ mem)
    split
    · exact meetsSteady chained rfl
    rcases edit with keeps | starts
    · have after := chained.keeps mem keeps shaped
      exact meetsSaveAnd mem keeps.id keeps.predecessor after (fun saved links _ =>
        meetsUnaccompanied (links ▸ after.later (Nat.le_succ _)))
    · have after := chained.starts mem starts shaped
      exact meetsSaveAnd mem starts.id starts.predecessor after (fun saved links _ =>
        meetsUnaccompanied (links ▸ after))

theorem meetsComplete {taskId : TaskId} {version : Option Nat} (command : r.command.taskId = some taskId) :
    Meets (Leaves s.issued (Named s r)) (whenLocked s r taskId version (completeLocked intl s r)) := by
  refine meetsWhenLocked (fun t mem id => ?_)
  unfold completeLocked
  cases moved : t.complete r.memberId r.now with
  | error e => exact leavesError
  | ok t' => exact meetsClose chained mem id (completeLink moved) command

theorem meetsCancel {taskId : TaskId} {version : Option Nat} {scope : Scope}
    (command : r.command.taskId = some taskId) :
    Meets (Leaves s.issued (Named s r)) (whenLocked s r taskId version (cancelLocked intl s r scope)) := by
  refine meetsWhenLocked (fun t mem id => ?_)
  unfold cancelLocked
  cases moved : t.cancel r.memberId r.now with
  | error e => exact leavesError
  | ok t' =>
    have same := cancelLink moved
    cases scope with
    | series => exact meetsSame chained mem rfl rfl same (fun _ links _ _ => meetsSteady chained links)
    | instance_ => exact meetsClose chained mem id same command

theorem meetsReopen {taskId : TaskId} {version : Option Nat} :
    Meets (Leaves s.issued (Named s r)) (whenLocked s r taskId version (reopenLocked intl s)) := by
  refine meetsWhenLocked (fun t mem _ => ?_)
  unfold reopenLocked
  cases moved : t.reopen with
  | error e => exact leavesError
  | ok t' =>
    exact meetsSame chained mem rfl rfl (reopenLink moved) (fun _ links _ _ => meetsSteady chained links)

theorem meetsAssign {taskId : TaskId} {assignee : FamilyMemberId} :
    Meets (Leaves s.issued (Named s r)) (whenLocked s r taskId none (assignLocked intl s r taskId assignee)) := by
  refine meetsWhenLocked (fun t mem _ => ?_)
  unfold assignLocked
  split
  · exact leavesError
  · exact meetsSteady chained rfl
  · rename_i t' moved
    have added := meetsAssignments s r.familyMembers r.transactionTime taskId [assignee]
    split
    · exact leavesError
    · rename_i failed
      rw [failed] at added
      exact added
    · rename_i last ok
      rw [ok] at added
      exact meetsSame chained (added.1 ▸ mem) added.1 added.2 (assignLink moved)
        (fun _ links _ _ => meetsSteady chained links)

theorem meetsUnassign {taskId : TaskId} {assignee : FamilyMemberId} :
    Meets (Leaves s.issued (Named s r)) (whenLocked s r taskId none (unassignLocked intl s taskId assignee)) := by
  refine meetsWhenLocked (fun t mem _ => ?_)
  unfold unassignLocked
  split
  · exact leavesError
  · exact meetsSteady chained rfl
  · rename_i t' moved
    have links : (s.removeAssignment taskId assignee).links = s.links := rfl
    exact meetsSame chained (links ▸ mem) links rfl (unassignLink moved)
      (fun _ links _ _ => meetsSteady chained links)

theorem meetsPerform : Meets (Leaves s.issued (Named s r)) (perform intl s r) := by
  unfold perform
  cases command : r.command with
  | createTask params => exact meetsCreate chained
  | updateTask taskId version patch => exact meetsUpdate chained
  | completeTask taskId version => exact meetsComplete chained (by rw [command]; rfl)
  | cancelTask taskId version scope => exact meetsCancel chained (by rw [command]; rfl)
  | reopenTask taskId version => exact meetsReopen chained
  | assignTask taskId assignee => exact meetsAssign chained
  | unassignTask taskId assignee => exact meetsUnassign chained

end

structure SeriesHold (rows : List TaskRow) : Prop where
  oneHead : ∀ a ∈ rows, ∀ b ∈ rows, a.isSeriesHead → b.isSeriesHead → a.seriesId = b.seriesId → a = b
  onePredecessor : ∀ a ∈ rows, ∀ b ∈ rows, a.predecessorId ≠ none → a.predecessorId = b.predecessorId → a = b
  chain : ∀ series, Linked TaskRow.id TaskRow.predecessorId none
    (rows.filter (fun r => r.seriesId = some series))
  headLast : ∀ series, ∀ a ∈ rows, a.seriesId = some series → a.isSeriesHead →
    (rows.filter (fun r => r.seriesId = some series)).getLast? = some a
  rule : ∀ a ∈ rows, a.recurrenceRule ≠ none →
    a.recurrenceAnchor ≠ none ∧ a.seriesId ≠ none ∧ a.dueKind ≠ .none
  noRule : ∀ a ∈ rows, a.recurrenceRule = none → a.recurrenceAnchor = none
  head : ∀ a ∈ rows, a.isSeriesHead → a.recurrenceRule ≠ none ∧ a.seriesId ≠ none

/- Whoever closes a task that is a predecessor already gets no second successor. -/
def NoSecondSuccessor (intl : ZonedTime.Intl) (s : Store) : Prop :=
  ∀ r taskId reply next, r.command.taskId = some taskId →
    (∃ row ∈ s.tasks.rows, row.predecessorId = some taskId) →
    perform intl s r = .ok (.ok (reply,next)) → reply.successor = none

def NoSeriesViolation (outcome : Except Thrown (Result Reply)) : Prop :=
  ∀ e, outcome = .error e → e.Expected

theorem chainedHold {issued : Nat} {s : Store} (chained : Chained issued s.links) : SeriesHold s.tasks.rows := by
  have memLink : ∀ {r : TaskRow}, r ∈ s.tasks.rows → r.link ∈ s.links := List.mem_map_of_mem
  have same : ∀ a ∈ s.tasks.rows, ∀ b ∈ s.tasks.rows, a.link = b.link → a = b :=
    fun a left b right equal => Table.equalOfKey left right (congrArg Link.id equal)
  have series : ∀ σ, (s.tasks.rows.filter (fun r => r.seriesId = some σ)).map TaskRow.link =
      seriesOf s.links σ := by
    intro σ
    rw [seriesOf,Store.links,List.filter_map]
    rfl
  have ruled : ∀ a ∈ s.tasks.rows, a.recurrenceRule ≠ none →
      a.recurrenceAnchor ≠ none ∧ a.seriesId ≠ none ∧ a.dueKind ≠ .none := by
    intro a mem some_
    have shape := chained.shaped _ (memLink mem)
    have rule : a.link.ruled := Option.isSome_iff_ne_none.mpr some_
    refine ⟨Option.isSome_iff_ne_none.mp (shape.anchor.trans rule),
      Option.isSome_iff_ne_none.mp (shape.series rule),of_decide_eq_true (shape.dated rule)⟩
  refine ⟨?_,?_,?_,?_,ruled,?_,?_⟩
  · intro a left b right headA headB equal
    have shape := chained.shaped _ (memLink left)
    obtain ⟨σ,member⟩ := Option.isSome_iff_exists.mp (shape.series (shape.head headA))
    exact same a left b right
      (chained.oneHead (memLink left) (memLink right) member (equal.symm.trans member) headA headB)
  · intro a left b right some_ equal
    obtain ⟨p,names⟩ := Option.ne_none_iff_exists'.mp some_
    exact same a left b right
      (chained.onePredecessor (memLink left) (memLink right) names (equal.symm.trans names))
  · intro σ
    have linked := chained.linked σ
    rw [← series] at linked
    exact (Chain.linkedMap (f := TaskRow.link) (fun _ => rfl) (fun _ => rfl)).mp linked
  · intro σ a mem member head
    have last := chained.headLast σ a.link (memSeries.mpr ⟨memLink mem,member⟩) head
    rw [← series,List.getLast?_map] at last
    obtain ⟨b,there,equal⟩ := Option.map_eq_some_iff.mp last
    rw [there,same b (List.mem_of_mem_filter (List.mem_of_getLast? there)) a mem equal]
  · intro a mem none
    have shape := chained.shaped _ (memLink mem)
    have anchored : a.recurrenceAnchor.isSome = a.recurrenceRule.isSome := shape.anchor
    simpa [none] using anchored
  · intro a mem head
    have shape := chained.shaped _ (memLink mem)
    have some_ : a.recurrenceRule ≠ none := Option.isSome_iff_ne_none.mp (shape.head head)
    exact ⟨some_,(ruled a mem some_).2.1⟩

theorem handleKeeps {intl : ZonedTime.Intl} {s : Store} {r : Request} (chained : Chained s.issued s.links) :
    NoSeriesViolation (handle intl s r).1 ∧ Chained (handle intl s r).2.issued (handle intl s r).2.links := by
  have performed : Meets (Leaves s.issued (Named s r)) (perform intl s r) := meetsPerform chained
  unfold handle
  cases answer : perform intl s r with
  | error e =>
    rw [answer] at performed
    refine ⟨?_,chained.later (Nat.le_succ _)⟩
    rintro e ⟨⟩
    exact performed
  | ok result =>
    rw [answer] at performed
    cases result with
    | error e => exact ⟨by rintro e ⟨⟩,chained.later (Nat.le_succ _)⟩
    | ok pair => exact ⟨by rintro e ⟨⟩,(performed pair.1 pair.2 rfl).1⟩

theorem noSecondSuccessor {intl : ZonedTime.Intl} {s : Store} (chained : Chained s.issued s.links) :
    NoSecondSuccessor intl s := by
  intro r taskId reply next command named performed
  obtain ⟨row,mem,names⟩ := named
  have left : Meets (Leaves s.issued (Named s r)) (perform intl s r) := meetsPerform chained
  rw [performed] at left
  exact (left reply next rfl).2 ⟨taskId,command,row.link,List.mem_map_of_mem mem,names⟩

theorem runSeriesHold (intl : ZonedTime.Intl) (requests : List Request) :
    SeriesHold (Machine.run (handle intl) Store.empty requests).2.tasks.rows ∧
    (∀ outcome ∈ (Machine.run (handle intl) Store.empty requests).1, NoSeriesViolation outcome) ∧
    NoSecondSuccessor intl (Machine.run (handle intl) Store.empty requests).2 := by
  have kept := Machine.runKeeps (handle intl) (fun s => Chained s.issued s.links) NoSeriesViolation
    (fun _ _ => handleKeeps) (s := Store.empty) chainedEmpty requests
  exact ⟨chainedHold kept.2,kept.1,noSecondSuccessor kept.2⟩

end FamilyPlatform.Tasks
