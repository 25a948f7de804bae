import Mathlib.Data.List.Chain
import FamilyPlatform.Tasks.Fits
import FamilyPlatform.Tasks.Versions

/-! The overdue sweep: what it discovers, and that it reports every due moment of a task
once, however its transactions lie among those of the members. -/
namespace FamilyPlatform.Tasks
open ZonedTime

structure OverdueCandidate where
  taskId : TaskId
  familyId : FamilyId
  deriving DecidableEq, Repr

/- The predicate of the query, and of the partial index. -/
def overdueUnreported (row : TaskRow) (now : Instant) : Bool :=
  row.status = .opened && row.dueAt.isSome && row.overdueReportedFor ≠ row.dueAt && row.dueAt.any (· ≤ now)

def findTasksNeedingOverdueReport (s : Store) (now : Instant) : List OverdueCandidate :=
  ((s.tasks.rows.filter (fun row => overdueUnreported row now)).insertionSort
    (fun a b => a.dueAt.getD 0 ≤ b.dueAt.getD 0)).map (fun row => ⟨row.id,row.familyId⟩)

/- In seconds, rounded with halves up. -/
def measureOverdueLag (s : Store) (now : Instant) : Int :=
  match ((s.tasks.rows.filter (fun row => overdueUnreported row now)).filterMap (fun row => row.dueAt)).min? with
  | none => 0
  | some oldest => max 0 ((now - oldest + 500) / 1000)

structure OverdueSweepResult where
  reported : Nat
  skipped : Nat
  failed : List TaskId
  lagSeconds : Int
  deriving DecidableEq, Repr

structure Sweeping where
  reported : Nat
  skipped : Nat
  failed : List TaskId
  events : List TaskOverdue
  store : Store

/- Each task in a transaction of its own, at a reading of the clock of its own. -/
def reportCandidate (intl : Intl) (now : Instant) (pass : Sweeping) (c : OverdueCandidate) : Sweeping :=
  match reportOverdue intl pass.store ⟨c.familyId,c.taskId,now⟩ with
  | .ok (some event, next) =>
    { pass with reported := pass.reported + 1, events := pass.events ++ [event], store := next }
  | .ok (none, _) => { pass with skipped := pass.skipped + 1 }
  | .error _ => { pass with failed := pass.failed ++ [c.taskId] }

def reportCandidates (intl : Intl) (clock : Nat → Instant) : Nat → Sweeping → List OverdueCandidate → Sweeping
  | _, pass, [] => pass
  | i, pass, c :: rest => reportCandidates intl clock (i + 1) (reportCandidate intl (clock i) pass c) rest

def sweepPass (intl : Intl) (clock : Nat → Instant) (s : Store) : Sweeping :=
  reportCandidates intl clock 1 ⟨0,0,[],[],s⟩ (findTasksNeedingOverdueReport s (clock 0))

/- The lag is measured after the pass. -/
def runReportOverdueTasksSweep (intl : Intl) (clock : Nat → Instant) (s : Store) : OverdueSweepResult × Store :=
  let pass := sweepPass intl clock s
  let last := (findTasksNeedingOverdueReport s (clock 0)).length + 1
  (⟨pass.reported,pass.skipped,pass.failed,measureOverdueLag pass.store (clock last)⟩, pass.store)

section
variable {intl : Intl} {s next : Store} {t : Task} {w : Work} {outcome : WorkOutcome}

theorem needsSame {row : TaskRow} {now : Instant} (moment : t.dueAt intl = some row.dueAt)
    (status : t.state.status = row.status) (reported : t.overdueReportedFor = row.overdueReportedFor) :
    needsOverdueReport intl t now = some (overdueUnreported row now) := by
  simp only [needsOverdueReport,moment,Task.isOverdue,Task.isOpen,status,reported,overdueUnreported,bind,
    Option.bind_some,Option.map_some,Option.some.injEq]
  cases decide (row.status = .opened) <;> cases row.dueAt.any (· ≤ now) <;> cases row.dueAt.isSome <;> simp

theorem savedNeeds {row : TaskRow} {now : Instant} (saved : columns intl t = .ok row.toTaskColumns) :
    needsOverdueReport intl t now = some (overdueUnreported row now) := by
  obtain ⟨_,_,_,_,-,-,moment,-,is⟩ := columnsSource saved
  have dueAt := congrArg TaskColumns.dueAt is
  have status := congrArg TaskColumns.status is
  have reported := congrArg TaskColumns.overdueReportedFor is
  simp only [columnsOf] at dueAt status reported
  exact needsSame (dueAt ▸ moment) status.symm reported.symm

theorem loadedNeeds {row : TaskRow} {assignees : List FamilyMemberId} {now : Instant} (fits : RowFits intl row)
    (loaded : Loaded row assignees t) : needsOverdueReport intl t now = some (overdueUnreported row now) :=
  needsSame (loadedFits fits loaded).2 (stateStatus loaded.state) loaded.reported

theorem memFind {now : Instant} {c : OverdueCandidate} : c ∈ findTasksNeedingOverdueReport s now ↔
    ∃ row ∈ s.tasks.rows, overdueUnreported row now = true ∧ c = ⟨row.id,row.familyId⟩ := by
  simp only [findTasksNeedingOverdueReport,List.mem_map,List.mem_insertionSort,List.mem_filter,and_assoc,eq_comm]

structure Discovers (intl : Intl) (s : Store) (now : Instant) : Prop where
  rows : ∀ c ∈ findTasksNeedingOverdueReport s now, ∃ row ∈ s.tasks.rows, c = ⟨row.id,row.familyId⟩
  written : ∀ row ∈ s.tasks.rows, ∃ t, columns intl t = .ok row.toTaskColumns
  exactly : ∀ row ∈ s.tasks.rows, ∀ t,
    columns intl t = .ok row.toTaskColumns ∨ s.lockById row.familyId row.id = .ok (some t) →
      (⟨row.id,row.familyId⟩ ∈ findTasksNeedingOverdueReport s now ↔ needsOverdueReport intl t now = some true)

theorem discovers {now : Instant} (fits : StoreFits intl s) : Discovers intl s now := by
  have found : ∀ row ∈ s.tasks.rows, (⟨row.id,row.familyId⟩ ∈ findTasksNeedingOverdueReport s now ↔
      overdueUnreported row now = true) := by
    intro row mem
    rw [memFind]
    constructor
    · rintro ⟨other,there,selected,same⟩
      obtain rfl := Table.equalOfKey mem there (congrArg OverdueCandidate.taskId same)
      exact selected
    · exact fun selected => ⟨row,mem,selected,rfl⟩
  refine ⟨fun c mem => ?_,fun row mem => (fits row.id row (Table.findMember mem)).saved,fun row mem t is => ?_⟩
  · obtain ⟨row,there,-,same⟩ := memFind.mp mem
    exact ⟨row,there,same⟩
  · have needs : needsOverdueReport intl t now = some (overdueUnreported row now) := by
      rcases is with saved | locked
      · exact savedNeeds saved
      · obtain ⟨row',there,-,-,loaded⟩ := Store.lockSource locked
        obtain rfl := Option.some.inj ((Table.findMember mem).symm.trans there)
        exact loadedNeeds (fits row.id row there) loaded
    rw [found row mem,needs,Option.some.injEq]

def Commit.dueMoment (id : TaskId) (e : Commit) : Option Instant :=
  match e.outcome with
  | .reported (.ok (some event)) => if event.taskId = id then some event.dueAt else none
  | _ => none

def dueMoments (id : TaskId) (log : List Commit) : List Instant := log.filterMap (Commit.dueMoment id)

def marker (s : Store) (id : TaskId) : Option Instant := (s.tasks.find id).bind (fun row => row.overdueReportedFor)

/- An event is written of an open task that is due, and not under the marker that stands there. -/
structure Timely (intl : Intl) (e : Commit) (event : TaskOverdue) : Prop where
  seen : ∃ r t, e.request = .report r ∧ e.before.lockById event.familyId event.taskId = .ok (some t) ∧
    t.isOpen = true ∧ t.dueAt intl = some (some event.dueAt) ∧ event.dueAt ≤ r.now
  fresh : marker e.before event.taskId ≠ some event.dueAt
  marked : marker e.after event.taskId = some event.dueAt
  left : ∀ id, id ≠ event.taskId → marker e.after id = marker e.before id

theorem needsSource {now dueAt : Instant} (moment : t.dueAt intl = some (some dueAt))
    (needs : needsOverdueReport intl t now = some true) :
    t.isOpen = true ∧ dueAt ≤ now ∧ t.overdueReportedFor ≠ some dueAt := by
  simpa [needsOverdueReport,moment,Task.isOverdue,and_assoc] using needs

theorem changedMarker (changed : Store.Changed intl s next t) : marker next t.id = t.overdueReportedFor := by
  obtain ⟨old,written,-,made,is⟩ := changed
  obtain ⟨_,_,_,_,-,-,-,-,rfl⟩ := columnsSource made
  simp only [marker,is,Option.bind_some,columnsOf]

theorem placedMarker {familyId : FamilyId} (placed : Store.Placed intl s next familyId t) :
    marker s t.id = none ∧ marker next t.id = t.overdueReportedFor := by
  obtain ⟨written,none_,made,is⟩ := placed
  obtain ⟨_,_,_,_,-,-,-,-,rfl⟩ := columnsSource made
  simp only [marker,none_,is,Option.bind_none,Option.bind_some,rowOf,columnsOf,and_self]

theorem viewMarker (view : readLocked s w = .ok (some t)) : marker s t.id = t.overdueReportedFor := by
  obtain ⟨row,there,-,-,loaded⟩ := viewSource view
  simp only [marker,there,Option.bind_some,loaded.reported]

theorem sameMarker {id : TaskId} (same : next.tasks.find id = s.tasks.find id) : marker next id = marker s id := by
  simp only [marker,same]

theorem effectMarker {r : Request} {reply : Reply} (before : marker s t.id = t.overdueReportedFor)
    (effect : Effect intl s r t reply next) (id : TaskId) : marker next id = marker s id := by
  cases effect with
  | kept tasks => exact sameMarker (by rw [tasks])
  | @moved t' _ move changed rows =>
    obtain ⟨same,-,reported⟩ := movedKeeps move
    by_cases own : id = t'.id
    · subst own
      rw [changedMarker changed,same,before,reported]
    · exact sameMarker (rows id own)
  | @handed t' due _ move _ changed placed rows =>
    obtain ⟨same,-,reported⟩ := movedKeeps move
    by_cases own : id = t'.id
    · subst own
      have := changedMarker changed
      rw [show t'.id = t'.relinquishHead.id from rfl,this,show t'.relinquishHead.id = t.id from same,before]
      exact reported
    · by_cases new : id = s.issued
      · subst new
        obtain ⟨none_,some_⟩ := placedMarker placed
        exact some_.trans none_.symm
      · exact sameMarker (rows id own new)

theorem timelyStep {e : Commit} (computed : Computed intl e) :
    (∃ event, e.outcome = .reported (.ok (some event)) ∧ Timely intl e event) ∨
    ((∀ event, e.outcome ≠ .reported (.ok (some event))) ∧ ∀ id, marker e.after id = marker e.before id) := by
  have did := computedDid computed
  obtain ⟨request,before,view,outcome,after⟩ := e
  simp only at did
  cases did with
  | @created r params t next command ok placed rows =>
    refine .inr ⟨by simp,fun id => ?_⟩
    by_cases own : id = t.id
    · subst own
      obtain ⟨none_,some_⟩ := placedMarker placed
      obtain ⟨-,-,-,created⟩ := Task.createSource ok
      exact some_.trans (created.reported.trans none_.symm)
    · exact sameMarker (rows id own)
  | worked _ view _ effect => exact .inr ⟨by simp,effectMarker (viewMarker view) effect⟩
  | refused _ tasks => exact .inr ⟨by simp,fun id => sameMarker (by rw [tasks])⟩
  | @reported r t dueAt next own seen moment needs changed rows =>
    obtain ⟨open_,due,other⟩ := needsSource moment needs
    obtain ⟨_,-,-,locked,-⟩ := viewSource seen
    refine .inl ⟨_,rfl,⟨⟨r,t,rfl,locked,open_,moment,due⟩,?_,changedMarker changed,fun id apart => sameMarker (rows id apart)⟩⟩
    exact fun is => other ((viewMarker seen).symm.trans is)
  | unreported no => exact .inr ⟨fun event is => no event (WorkOutcome.reported.inj is),fun _ => rfl⟩

theorem serialMarkers {last : Store} {log : List Commit} (serial : RowLock.Serial (works intl) s log last)
    (computed : ∀ e ∈ log, Computed intl e) (id : TaskId) :
    (marker s id :: (dueMoments id log).map some).IsChain (· ≠ ·) ∧
      marker last id = ((dueMoments id log).getLast?).or (marker s id) := by
  induction serial with
  | nil s => exact ⟨.singleton _,rfl⟩
  | @cons e rest last view made later ih =>
    obtain ⟨chain,end_⟩ := ih (fun d mem => computed d (List.mem_cons_of_mem e mem))
    rcases timelyStep (computed e List.mem_cons_self) with ⟨event,is,timely⟩ | ⟨none_,same⟩
    · by_cases own : event.taskId = id
      · subst own
        have moment : dueMoments event.taskId (e :: rest) = event.dueAt :: dueMoments event.taskId rest := by
          simp only [dueMoments,List.filterMap_cons,Commit.dueMoment,is,if_pos]
        rw [timely.marked] at chain end_
        rw [moment,List.map_cons]
        refine ⟨.cons_cons timely.fresh chain,?_⟩
        rw [end_,List.getLast?_cons]
        cases (dueMoments event.taskId rest).getLast? <;> rfl
      · have moment : dueMoments id (e :: rest) = dueMoments id rest := by
          simp only [dueMoments,List.filterMap_cons,Commit.dueMoment,is,if_neg own]
        rw [moment,← timely.left id (Ne.symm own)]
        exact ⟨chain,end_⟩
    · have moment : dueMoments id (e :: rest) = dueMoments id rest := by
        have none' : Commit.dueMoment id e = none := by
          unfold Commit.dueMoment
          split
          · exact absurd (by assumption) (none_ _)
          · rfl
        simp only [dueMoments,List.filterMap_cons,none']
      rw [moment,← same id]
      exact ⟨chain,end_⟩

theorem unreportedSource {row : TaskRow} {now : Instant} (unreported : overdueUnreported row now = true) :
    ∃ dueAt, row.status = .opened ∧ row.dueAt = some dueAt ∧ dueAt ≤ now ∧ row.overdueReportedFor ≠ some dueAt := by
  cases dueAt : row.dueAt with
  | none => simp [overdueUnreported,dueAt] at unreported
  | some d =>
    obtain ⟨⟨open_,other⟩,due⟩ := by simpa [overdueUnreported,dueAt] using unreported
    exact ⟨d,open_,rfl,due,other⟩

theorem notSkipped {r : ReportRequest} {row : TaskRow} {now : Instant} (fits : StoreFits intl s)
    (there : s.tasks.find r.taskId = some row) (family : row.familyId = r.familyId) (later : now ≤ r.now)
    (unreported : overdueUnreported row now = true) : reportOverdue intl s r ≠ .ok (none,next) := by
  intro skipped
  have unreported' : overdueUnreported row r.now = true := by
    obtain ⟨dueAt,open_,is,due,other⟩ := unreportedSource unreported
    simpa [overdueUnreported,is,open_,Ne.symm other] using ⟨other,le_trans due later⟩
  simp only [reportOverdue,Store.lockById,there,Option.filter_some,family,decide_true,if_true] at skipped
  cases read : toAggregate row (s.assigneesOf r.taskId) with
  | error e =>
    rw [read] at skipped
    cases skipped
  | ok t =>
    have loaded := loadedSource read
    rw [read] at skipped
    obtain ⟨dueAt,-,is,-⟩ := unreportedSource unreported
    have moment := (loadedFits (fits _ _ there) loaded).2
    rw [is] at moment
    have needs : needsOverdueReport intl t r.now = some _ := loadedNeeds (fits _ _ there) loaded
    rw [unreported'] at needs
    simp only [Except.map,bind,Except.bind,reportLocked,moment,orThrow,needs,if_true,Task.recordOverdueReported,
      Option.map_some] at skipped
    split at skipped
    · cases skipped
    · cases skipped

theorem reportedRow {r : ReportRequest} {event : TaskOverdue} (now : Instant)
    (reported : reportOverdue intl s r = .ok (some event,next)) :
    (∀ row, next.tasks.find r.taskId = some row → overdueUnreported row now = false) ∧
    (∀ id, id ≠ r.taskId → next.tasks.find id = s.tasks.find id) := by
  have did : Did intl s (.report r) _ _ := reportDid rfl
  simp only [writeLocked,← reportRead,reported] at did
  cases did with
  | reported own _ moment _ changed rows =>
    refine ⟨fun row there => ?_,fun id apart => rows id (own ▸ apart)⟩
    obtain ⟨old,written,-,made,is⟩ := changed
    obtain ⟨_,_,dueAt,_,-,-,moment',-,rfl⟩ := columnsSource made
    obtain rfl := Option.some.inj (moment'.symm.trans moment)
    obtain rfl := Option.some.inj ((own ▸ is).symm.trans there)
    simp [overdueUnreported,columnsOf]
  | unreported no => exact absurd rfl (no event)

structure Passing (intl : Intl) (s : Store) (now : Instant) (pass : Sweeping) (rest : List OverdueCandidate) : Prop where
  fits : StoreFits intl pass.store
  pending : ∀ row ∈ pass.store.tasks.rows, overdueUnreported row now = true → ⟨row.id,row.familyId⟩ ∈ rest
  written : ∀ row ∈ s.tasks.rows, overdueUnreported row now = true → row ∈ pass.store.tasks.rows ∨
    ∃ dueAt, row.dueAt = some dueAt ∧ ⟨row.familyId,row.id,dueAt⟩ ∈ pass.events

theorem candidateFailed {time : Instant} (pass : Sweeping) (c : OverdueCandidate) :
    pass.failed <+: (reportCandidate intl time pass c).failed := by
  unfold reportCandidate
  split
  · exact List.prefix_rfl
  · exact List.prefix_rfl
  · exact List.prefix_append _ _

theorem candidatesFailed {clock : Nat → Instant} {i : Nat} {pass : Sweeping} {rest : List OverdueCandidate} :
    pass.failed <+: (reportCandidates intl clock i pass rest).failed := by
  induction rest generalizing i pass with
  | nil => exact List.prefix_rfl
  | cons c rest ih => exact (candidateFailed pass c).trans ih

theorem reportedEvent {r : ReportRequest} {event : TaskOverdue} (fits : StoreFits intl s)
    (reported : reportOverdue intl s r = .ok (some event,next)) : StoreFits intl next ∧
      ∃ row dueAt, s.tasks.find r.taskId = some row ∧ row.familyId = r.familyId ∧ row.dueAt = some dueAt ∧
        event = ⟨r.familyId,r.taskId,dueAt⟩ := by
  have did : Did intl s (.report r) _ _ := reportDid rfl
  simp only [writeLocked,← reportRead,reported] at did
  have kept : StoreFits intl next := didFits (w := .report r) fits trivial did
  cases did with
  | reported own view moment =>
    obtain ⟨-,row,there,-,moment'⟩ := viewFits fits view
    obtain ⟨row',there',-,family,-⟩ := Store.lockSource view
    obtain rfl := Option.some.inj ((own ▸ there).symm.trans there')
    exact ⟨kept,row,_,there',family,Option.some.inj (moment'.symm.trans moment),by rw [own]⟩
  | unreported no => exact absurd rfl (no event)

theorem reportedPassing {now time : Instant} {origin next : Store} {pass : Sweeping} {c : OverdueCandidate}
    {rest : List OverdueCandidate} {event : TaskOverdue} {count : Nat} (passing : Passing intl origin now pass (c :: rest))
    (reported : reportOverdue intl pass.store ⟨c.familyId,c.taskId,time⟩ = .ok (some event,next)) :
    Passing intl origin now { pass with reported := count, events := pass.events ++ [event], store := next } rest := by
  obtain ⟨fits,pending,written⟩ := passing
  obtain ⟨own,others⟩ := reportedRow now reported
  have back : ∀ row, row.id ≠ c.taskId → (row ∈ next.tasks.rows ↔ row ∈ pass.store.tasks.rows) := by
    intro row apart
    have same := others row.id apart
    exact ⟨fun mem => (Table.findSource (same.symm.trans (Table.findMember mem))).1,
      fun mem => (Table.findSource (same.trans (Table.findMember mem))).1⟩
  obtain ⟨kept,row₀,dueAt₀,there₀,family₀,moment₀,rfl⟩ := reportedEvent fits reported
  refine ⟨kept,fun row mem unreported => ?_,fun row mem unreported => ?_⟩
  · have apart : row.id ≠ c.taskId := by
      intro same
      have := own row (same ▸ Table.findMember mem)
      rw [unreported] at this
      cases this
    rcases List.mem_cons.mp (pending row ((back row apart).mp mem) unreported) with rfl | there
    · exact absurd rfl apart
    · exact there
  · rcases written row mem unreported with still | ⟨dueAt,is,mem⟩
    · by_cases same : row.id = c.taskId
      · obtain rfl := Option.some.inj ((same ▸ Table.findMember still).symm.trans there₀)
        exact .inr ⟨dueAt₀,moment₀,by rw [family₀,same]; exact List.mem_append_right _ List.mem_cons_self⟩
      · exact .inl ((back row same).mpr still)
    · exact .inr ⟨dueAt,is,List.mem_append_left _ mem⟩

theorem skippedPassing {now time : Instant} {origin next : Store} {pass : Sweeping} {c : OverdueCandidate}
    {rest : List OverdueCandidate} {count : Nat} (later : now ≤ time)
    (passing : Passing intl origin now pass (c :: rest))
    (reported : reportOverdue intl pass.store ⟨c.familyId,c.taskId,time⟩ = .ok (none,next)) :
    Passing intl origin now { pass with skipped := count } rest := by
  obtain ⟨fits,pending,written⟩ := passing
  refine ⟨fits,fun row mem unreported => ?_,written⟩
  rcases List.mem_cons.mp (pending row mem unreported) with rfl | there
  · exact absurd reported (notSkipped fits (Table.findMember mem) rfl later unreported)
  · exact there

theorem candidatePassing {now time : Instant} {origin : Store} {pass : Sweeping} {c : OverdueCandidate}
    {rest : List OverdueCandidate} (later : now ≤ time) (passing : Passing intl origin now pass (c :: rest))
    (fine : (reportCandidate intl time pass c).failed = pass.failed) :
    Passing intl origin now (reportCandidate intl time pass c) rest := by
  cases reported : reportOverdue intl pass.store ⟨c.familyId,c.taskId,time⟩ with
  | error e => simp [reportCandidate,reported] at fine
  | ok done =>
    obtain ⟨found,next⟩ := done
    cases found with
    | none =>
      simp only [reportCandidate,reported]
      exact skippedPassing later passing reported
    | some event =>
      simp only [reportCandidate,reported]
      exact reportedPassing passing reported

theorem candidatesPassing {clock : Nat → Instant} {now : Instant} {i : Nat} {origin : Store} {pass : Sweeping}
    {rest : List OverdueCandidate} (later : ∀ j, now ≤ clock j) (passing : Passing intl origin now pass rest)
    (fine : (reportCandidates intl clock i pass rest).failed = pass.failed) :
    Passing intl origin now (reportCandidates intl clock i pass rest) [] := by
  induction rest generalizing i pass with
  | nil => exact passing
  | cons c rest ih =>
    -- Nothing leaves the failures, so that no step of the pass adds to them either.
    have first : _ <+: (reportCandidate intl (clock i) pass c).failed := candidateFailed pass c
    have others : _ <+: (reportCandidates intl clock (i + 1) (reportCandidate intl (clock i) pass c) rest).failed :=
      candidatesFailed
    have same : (reportCandidate intl (clock i) pass c).failed = pass.failed :=
      (first.eq_of_length (le_antisymm first.length_le (fine ▸ others).length_le)).symm
    exact ih (candidatePassing (later i) passing same) (fine.trans same.symm)

structure Sweeps (intl : Intl) (clock : Nat → Instant) (s : Store) : Prop where
  clean : ∀ row ∈ (runReportOverdueTasksSweep intl clock s).2.tasks.rows, row.status = .opened →
    ∀ dueAt, row.dueAt = some dueAt → dueAt ≤ clock 0 → row.overdueReportedFor = some dueAt
  written : ∀ row ∈ s.tasks.rows, overdueUnreported row (clock 0) = true →
    ∃ dueAt, row.dueAt = some dueAt ∧ ⟨row.familyId,row.id,dueAt⟩ ∈ (sweepPass intl clock s).events

theorem sweeps {clock : Nat → Instant} (fits : StoreFits intl s) (later : ∀ i, clock 0 ≤ clock i)
    (fine : (runReportOverdueTasksSweep intl clock s).1.failed = []) : Sweeps intl clock s := by
  have begins : Passing intl s (clock 0) ⟨0,0,[],[],s⟩ (findTasksNeedingOverdueReport s (clock 0)) :=
    ⟨fits,fun row mem unreported => memFind.mpr ⟨row,mem,unreported,rfl⟩,fun row mem _ => .inl mem⟩
  have ends := candidatesPassing later begins fine
  have clean : ∀ row ∈ (sweepPass intl clock s).store.tasks.rows, overdueUnreported row (clock 0) = false := by
    intro row mem
    by_contra unreported
    exact absurd (ends.pending row mem (by simpa using unreported)) List.not_mem_nil
  refine ⟨fun row mem open_ dueAt is due => ?_,fun row mem unreported => ?_⟩
  · have reported := clean row mem
    simp only [overdueUnreported,open_,is] at reported
    simpa [due] using reported
  · rcases ends.written row mem unreported with still | written
    · have := clean row still
      rw [unreported] at this
      cases this
    · exact written

structure Reports (intl : Intl) (log : List Commit) (s : Store) : Prop where
  timely : ∀ e ∈ log, ∀ event, e.outcome = .reported (.ok (some event)) → Timely intl e event
  distinct : ∀ id, (dueMoments id log).IsChain (· ≠ ·)
  marked : ∀ id, marker s id = (dueMoments id log).getLast?
  discovers : ∀ now, Discovers intl s now
  sweeps : ∀ clock, (∀ i, clock 0 ≤ clock i) → (runReportOverdueTasksSweep intl clock s).1.failed = [] →
    Sweeps intl clock s

end

theorem runFits {intl : Intl} {moves : List (RowLock.Move Work)} {last : RowLock.Config Store Work View WorkOutcome}
    (dated : ∀ w, .begin w ∈ moves → w.Dated intl)
    (ran : RowLock.run (works intl) (RowLock.begins Store.empty) moves = some last) : StoreFits intl last.store := by
  obtain ⟨serial,requests⟩ := RowLock.runSerial worksFramed dated ran
  exact (serial.keeps (StoreFits intl) (fun _ => True) (Work.Dated intl)
    (fun e read made dated fits => ⟨didFits fits dated (computedDid ⟨read,made⟩),trivial⟩) requests
    (fun id row found => by cases found)).1

/-- In every run of members' commands and overdue reports, from the empty tables on. -/
theorem runReports (intl : Intl) (moves : List (RowLock.Move Work)) (dated : ∀ w, .begin w ∈ moves → w.Dated intl)
    (last : RowLock.Config Store Work View WorkOutcome)
    (ran : RowLock.run (works intl) (RowLock.begins Store.empty) moves = some last) :
    Reports intl last.log last.store := by
  obtain ⟨serial,requests⟩ := RowLock.runSerial worksFramed dated ran
  have computed := (serialVersions serial).1
  have fits := runFits dated ran
  refine ⟨fun e mem event is => ?_,fun id => ?_,fun id => ?_,fun now => discovers fits,fun clock => sweeps fits⟩
  · rcases timelyStep (computed e mem) with ⟨event',is',timely⟩ | ⟨none_,-⟩
    · obtain rfl : event = event' := Option.some.inj (Except.ok.inj (WorkOutcome.reported.inj (is.symm.trans is')))
      exact timely
    · exact absurd is (none_ event)
  · have chain := (serialMarkers serial computed id).1.tail
    rw [List.tail_cons,List.isChain_map] at chain
    exact chain.imp (fun _ _ other same => other (congrArg some same))
  · rw [(serialMarkers serial computed id).2]
    cases (dueMoments id last.log).getLast? <;> rfl

def overdueMoves : List (RowLock.Move Work) :=
  [.begin (choreOf (.createTask (choreDue ⟨2026,9,30⟩ none)) 1 []),.lock 0,
   .begin (.report ⟨0,0,1790800000000⟩),.begin (.report ⟨0,0,1790800000001⟩),.lock 2,.commit 2,.lock 1,.commit 1]

theorem choreReported : ∃ last : RowLock.Config Store Work View WorkOutcome,
    dueMoments 0 last.log = [1790793000000] ∧ Reports everywhereUtc last.log last.store := by
  have run : (RowLock.run (works everywhereUtc) (RowLock.begins Store.empty) overdueMoves).map
      (fun c => dueMoments 0 c.log) = some [1790793000000] := by decide +kernel
  obtain ⟨last,ran,moments⟩ := Option.map_eq_some_iff.mp run
  refine ⟨last,moments,runReports everywhereUtc overdueMoves (fun w mem => ?_) last ran⟩
  simp only [overdueMoves,List.mem_cons,RowLock.Move.begin.injEq,reduceCtorEq,List.not_mem_nil,false_or,or_false]
    at mem
  rcases mem with rfl | rfl | rfl
  · rintro due ⟨⟩
    exact ⟨⟨.dateTime "2026-09-30" "18:30" "Europe/London",by decide +kernel⟩,by decide⟩
  · trivial
  · trivial

end FamilyPlatform.Tasks
