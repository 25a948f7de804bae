import FamilyPlatform.Tasks.Overdue

/-! When tasks were closed. Where the clock shows dates, so does every row of when its task was completed or cancelled,
and the task that is loaded from it. -/
namespace FamilyPlatform.Tasks
open ZonedTime

def Task.closedAt (t : Task) : Option Instant := ((completion t.state).or (cancellation t.state)).map Prod.fst

def Work.Clocked : Work → Prop
  | .member r => timeClip r.now = some r.now
  | .report _ => True

def Task.Clocked (t : Task) : Prop := ∀ i, t.closedAt = some i → timeClip i = some i

def StoreClocked (s : Store) : Prop :=
  ∀ id row, s.tasks.find id = some row → ∀ i, row.closedAt = some i → timeClip i = some i

section
variable {intl : Intl} {s next : Store} {r : Request} {t t' : Task} {row : TaskRow}

theorem columnsClosed (made : columns intl t = .ok row.toTaskColumns) : row.closedAt = t.closedAt := by
  obtain ⟨_,_,_,_,-,-,-,-,is⟩ := columnsSource made
  exact congrArg TaskColumns.closedAt is

theorem loadedClosed {assignees : List FamilyMemberId} (fits : RowFits intl row) (loaded : Loaded row assignees t) :
    t.closedAt = row.closedAt := by
  obtain ⟨u,made⟩ := fits.saved
  rw [columnsClosed made]
  obtain ⟨_,_,_,_,-,-,-,-,is⟩ := columnsSource made
  have status := congrArg TaskColumns.status is
  have completed := congrArg TaskColumns.completedAt is
  have cancelled := congrArg TaskColumns.cancelledAt is
  simp only [columnsOf] at status completed cancelled
  have state := loaded.state
  unfold toState at state
  unfold Task.closedAt
  cases before : u.state <;> simp only [before,TaskState.status,completion,cancellation,Option.map_some,Option.map_none]
    at status completed cancelled <;> simp only [status,completed,cancelled,Option.some.injEq] at state <;> rw [← state] <;>
    rfl

theorem movedClosed {n : TaskSeriesId} (move : Moved intl r n t t') :
    ∀ i, t'.closedAt = some i → t.closedAt = some i ∨ i = r.now := by
  intro i is
  cases move with
  | updated _ ok some_ =>
    rcases (Task.updateSource ok).2 with ⟨none_,-⟩ | ⟨-,edited⟩
    · exact absurd none_ some_
    · unfold Task.closedAt at is ⊢
      exact .inl (edited.kept.state ▸ is)
  | completed _ ok => obtain ⟨-,rfl⟩ := Task.completeSource ok; cases is; exact .inr rfl
  | cancelled _ ok => obtain ⟨-,rfl⟩ := Task.cancelSource ok; cases is; exact .inr rfl
  | reopened _ ok => obtain ⟨-,rfl⟩ := Task.reopenSource ok; cases is
  | assigned _ ok => obtain ⟨-,rfl⟩ := Task.assignSource ok; exact .inl is
  | unassigned _ ok => obtain ⟨-,rfl⟩ := Task.unassignSource ok; exact .inl is

theorem localToInstantDated {zone : Zone} {reading : LocalDateTime} {i : Instant}
    (found : localToInstant zone reading = some i) : timeClip i = some i := by
  have dated : ∀ {j : Instant} {reads : LocalDateTime}, instantToLocal zone j = some reads → timeClip j = some j := by
    intro j reads is
    obtain ⟨ms,clip,-⟩ := Option.map_eq_some_iff.mp is
    rw [clip,timeClipSource clip]
  simp only [localToInstant,bind,Option.bind_eq_some_iff] at found
  obtain ⟨pivot,-,before,-,after,-,readsFirst,first,readsSecond,second,found⟩ := found
  split at found <;> cases found
  · rcases min_choice (pivot - before) (pivot - after) with least | least <;> rw [least]
    · exact dated first
    · exact dated second
  · exact dated first
  · exact dated second
  · exact dated first

theorem rowDueDated (fits : RowFits intl row) : ∀ i, row.dueAt = some i → timeClip i = some i := by
  intro i is
  obtain ⟨t,made⟩ := fits.saved
  obtain ⟨_,_,dueAt,_,-,-,moment,-,same⟩ := columnsSource made
  have due : row.dueAt = dueAt := congrArg TaskColumns.dueAt same
  rw [← due,is] at moment
  unfold Task.dueAt at moment
  cases dated : t.due with
  | none => simp [dated] at moment
  | some due =>
    simp only [dated] at moment
    obtain ⟨j,found,rfl⟩ : ∃ j, dueMomentOf intl due = some j ∧ j = i := by
      obtain ⟨j,found,same⟩ := Option.map_eq_some_iff.mp moment
      exact ⟨j,found,Option.some.inj same⟩
    simp only [dueMomentOf,bind,Option.bind_eq_some_iff] at found
    obtain ⟨zone,-,found⟩ := found
    cases due with
    | date day timeZone =>
      obtain ⟨next,-,starts⟩ := Option.bind_eq_some_iff.mp found
      exact localToInstantDated starts
    | dateTime day time timeZone => exact localToInstantDated found

theorem clockedAfter {id : TaskId} (clocked : StoreClocked s)
    (others : ∀ other, other ≠ id → next.tasks.find other = s.tasks.find other)
    (own : ∀ row, next.tasks.find id = some row → ∀ i, row.closedAt = some i → timeClip i = some i) :
    StoreClocked next := by
  intro other row there
  by_cases same : other = id
  · exact own row (same ▸ there)
  · exact clocked other row (others other same ▸ there)

theorem changedClocked (clocked : t.Clocked) (changed : Store.Changed intl s next t) :
    ∀ row, next.tasks.find t.id = some row → ∀ i, row.closedAt = some i → timeClip i = some i := by
  obtain ⟨old,written,-,made,is⟩ := changed
  intro row there i closed
  obtain rfl := Option.some.inj (is.symm.trans there)
  exact clocked i (@columnsClosed intl t { old with toTaskColumns := written } made ▸ closed)

theorem placedClocked {familyId : FamilyId} (clocked : t.Clocked) (placed : Store.Placed intl s next familyId t) :
    ∀ row, next.tasks.find t.id = some row → ∀ i, row.closedAt = some i → timeClip i = some i := by
  obtain ⟨written,-,made,is⟩ := placed
  intro row there i closed
  obtain rfl := Option.some.inj (is.symm.trans there)
  exact clocked i (@columnsClosed intl t { rowOf t written with familyId := familyId } made ▸ closed)

theorem viewClocked {w : Work} (fits : StoreFits intl s) (clocked : StoreClocked s)
    (view : readLocked s w = .ok (some t)) : t.Clocked := by
  obtain ⟨row,there,-,-,loaded⟩ := viewSource view
  intro i is
  exact clocked t.id row there i (loadedClosed (fits t.id row there) loaded ▸ is)

theorem openClocked (opened : t.state = .opened) : t.Clocked := by
  intro i is
  simp only [Task.closedAt,opened] at is
  cases is

theorem effectClocked {reply : Reply} (clocked : StoreClocked s) (own : t.Clocked) (clock : timeClip r.now = some r.now)
    (effect : Effect intl s r t reply next) : StoreClocked next := by
  have moved : ∀ t', Moved intl r s.issued t t' → t'.Clocked := by
    intro t' move i is
    rcases movedClosed move i is with old | rfl
    · exact own i old
    · exact clock
  cases effect with
  | kept tasks => exact fun id row there => clocked id row (tasks ▸ there)
  | moved move row rows => exact clockedAfter clocked rows (changedClocked (moved _ move) row)
  | @handed t' due _ move found changed placed rows =>
    intro id row there
    by_cases same : id = t'.id
    · have relinquished : t'.relinquishHead.Clocked := moved t' move
      exact changedClocked relinquished changed row (same ▸ there)
    · by_cases new : id = s.issued
      · exact placedClocked (openClocked rfl) placed row (new ▸ there)
      · exact clocked id row (rows id same new ▸ there)

theorem didClocked {w : Work} {outcome : WorkOutcome} (fits : StoreFits intl s) (clocked : StoreClocked s)
    (clock : w.Clocked) (did : Did intl s w outcome next) : StoreClocked next := by
  cases did with
  | created command ok row rows =>
    obtain ⟨-,-,-,created⟩ := Task.createSource ok
    exact clockedAfter clocked rows (placedClocked (openClocked created.state) row)
  | worked _ view _ effect => exact effectClocked clocked (viewClocked fits clocked view) clock effect
  | refused _ tasks => exact fun id row there => clocked id row (tasks ▸ there)
  | @reported _ t dueAt _ _ view _ _ row rows =>
    have own := viewClocked fits clocked view
    exact clockedAfter clocked rows (changedClocked (t := { t with overdueReportedFor := some dueAt }) own row)
  | unreported _ => exact clocked

theorem runClocked {moves : List (RowLock.Move Work)} {last : RowLock.Config Store Work View WorkOutcome}
    (dated : ∀ w, .begin w ∈ moves → w.Dated intl ∧ w.Clocked)
    (ran : RowLock.run (works intl) (RowLock.begins Store.empty) moves = some last) : StoreClocked last.store := by
  obtain ⟨serial,requests⟩ := RowLock.runSerial worksFramed dated ran
  refine (serial.keeps (fun s => StoreFits intl s ∧ StoreClocked s) (fun _ => True)
    (fun w => w.Dated intl ∧ w.Clocked) (fun e read made allowed good => ?_) requests
    ⟨fun id row found => ?_,fun id row found => ?_⟩).1.2
  · have did := computedDid ⟨read,made⟩
    exact ⟨⟨didFits good.1 allowed.1 did,didClocked good.1 good.2 allowed.2 did⟩,trivial⟩
  all_goals cases found

end
end FamilyPlatform.Tasks
