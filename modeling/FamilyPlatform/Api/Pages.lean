import FamilyPlatform.Api.Cursors
import FamilyPlatform.Tasks.Closed
import FamilyPlatform.Tasks.Hidden

/-! The lists of tasks, asked for page by page until there is no next one. The pages hold what the reader may see and has
asked for, each task once and in the order of the list; unless a stored rule among them is not one that is read. -/
namespace FamilyPlatform.Api
open ZonedTime Tasks Paging

structure OpenTasksQuery.Matches (intl : Intl) (query : OpenTasksQuery) (now : Instant) (t : Task) : Prop where
  opened : t.isOpen = true
  assignee : ∀ member, query.assignee = some member → member ∈ t.assignees
  overdue : query.overdue = true → ∃ dueAt, t.dueAt intl = some (some dueAt) ∧ dueAt ≤ now
  start : ∀ start, query.dueFrom.join = some start → ∃ dueAt, t.dueAt intl = some (some dueAt) ∧ start ≤ dueAt
  stop : ∀ stop, query.dueTo.join = some stop → ∃ dueAt, t.dueAt intl = some (some dueAt) ∧ dueAt < stop

structure TaskHistoryQuery.Matches (query : TaskHistoryQuery) (t : Task) : Prop where
  closed : t.isOpen = false
  start : ∀ start, query.start = some start → ∃ closedAt, t.closedAt = some closedAt ∧ start ≤ closedAt
  stop : ∀ stop, query.stop = some stop → ∃ closedAt, t.closedAt = some closedAt ∧ closedAt < stop

def dueBefore (intl : Intl) (a b : Task) : Prop :=
  match a.dueAt intl, b.dueAt intl with
  | some (some x), some (some y) => x < y ∨ (x = y ∧ a.id < b.id)
  | some (some _), some none => True
  | some none, some none => a.id < b.id
  | _, _ => False

def closedAfter (a b : Task) : Prop :=
  match a.closedAt, b.closedAt with
  | some x, some y => y < x ∨ (x = y ∧ b.id < a.id)
  | _, _ => False

/- Whoever asks until there is no next page is given these items. -/
structure Gives (fetch : Option String → ListResponse) (most : Nat) (listed : Task → Prop)
    (before : Task → Task → Prop) (items : List Task) : Prop where
  ends : ∀ fuel, most < fuel → follow (fun cursor => (fetch cursor).found) fuel none = some items
  each : ∀ t, t ∈ items ↔ listed t
  once : (items.map Task.id).Nodup
  ordered : items.Pairwise before

def OpenTasksQuery.selection (query : OpenTasksQuery) (reader : Reader) (after : Option OpenCursor) (limit : Nat) :
    OpenListQuery :=
  ⟨reader.visible,query.assignee,if query.overdue then some reader.now else none,query.dueFrom.join,query.dueTo.join,
    after,limit⟩

def TaskHistoryQuery.selection (query : TaskHistoryQuery) (reader : Reader) (after : Option ClosedCursor) (limit : Nat) :
    ClosedListQuery :=
  ⟨reader.visible,query.start,query.stop,after,limit⟩

def loadRow (s : Store) (reader : Reader) (row : TaskRow) : Option Task :=
  match s.findById reader.familyId row.id with
  | .ok found => found
  | .error _ => none

section
variable {intl : Intl} {s : Store} {reader : Reader} {row : TaskRow} {t : Task}

theorem loadSource (mem : row ∈ s.tasks.rows) (loaded : loadRow s reader row = some t) :
    s.findById reader.familyId row.id = .ok (some t) ∧ row.familyId = reader.familyId ∧
      Loaded row (s.assigneesOf row.id) t := by
  have found : s.findById reader.familyId row.id = .ok (some t) := by
    unfold loadRow at loaded
    cases read : s.findById reader.familyId row.id with
    | error e =>
      rw [read] at loaded
      cases loaded
    | ok found =>
      rw [read] at loaded
      exact congrArg Except.ok loaded
  obtain ⟨row',there,-,family,loaded'⟩ := Store.lockSource found
  obtain rfl := Option.some.inj ((Table.findMember mem).symm.trans there)
  exact ⟨found,family,loaded'⟩

theorem loadRead (fits : StoreFits intl s) (mem : row ∈ s.tasks.rows) (family : row.familyId = reader.familyId) :
    (loadRow s reader row).isSome = true ↔ ¬ s.Unreadable reader row.id := by
  have found := Table.findMember mem
  have same : (s.tasks.find row.id).filter (fun row => row.familyId = reader.familyId) = some row := by
    rw [found,Option.filter_some,if_pos (by simpa using family)]
  constructor
  · intro some_ unreadable
    rw [loadRow,Store.findById,unreadableLock unreadable] at some_
    cases some_
  · intro readable
    obtain ⟨u,made⟩ := (fits row.id row found).saved
    obtain ⟨⟨due,dated⟩,state,stated⟩ := recordedReads made
    obtain ⟨rule,stored⟩ := readableRule found family readable
    simp only [loadRow,Store.findById,Store.lockById,same,toAggregate,stored,dated,stated,orThrow,bind,Except.bind]
    rfl

theorem loadEach {rows : List TaskRow} (there : ∀ row ∈ rows, row ∈ s.tasks.rows ∧ row.familyId = reader.familyId) :
    (∃ items, rows.mapM (loadRow s reader) = some items ∧
      s.loadInOrder reader.familyId (rows.map TaskRow.id) = .ok items) ∨
    (rows.mapM (loadRow s reader) = none ∧ ∃ e, s.loadInOrder reader.familyId (rows.map TaskRow.id) = .error e) := by
  induction rows with
  | nil => exact .inl ⟨[],rfl,rfl⟩
  | cons row rest ih =>
    obtain ⟨mem,family⟩ := there row List.mem_cons_self
    have same : (s.tasks.find row.id).filter (fun row => row.familyId = reader.familyId) = some row := by
      rw [Table.findMember mem,Option.filter_some,if_pos (by simpa using family)]
    have one : (∃ t, s.findById reader.familyId row.id = .ok (some t)) ∨
        ∃ e, s.findById reader.familyId row.id = .error e := by
      simp only [Store.findById,Store.lockById,same]
      cases toAggregate row (s.assigneesOf row.id) with
      | ok t => exact .inl ⟨t,rfl⟩
      | error e => exact .inr ⟨e,rfl⟩
    have later := ih (fun row mem => there row (List.mem_cons_of_mem _ mem))
    rw [List.mapM_cons,List.map_cons]
    unfold Store.loadInOrder at later ⊢
    rw [List.mapM_cons]
    rcases one with ⟨t,is⟩ | ⟨e,is⟩
    · simp only [loadRow,is]
      cases found : (rest.map TaskRow.id).mapM (fun id => s.findById reader.familyId id) with
      | error e =>
        rw [found] at later
        rcases later with ⟨items,-,loaded⟩ | ⟨fails,-⟩
        · cases loaded
        · exact .inr ⟨by rw [fails]; rfl,e,rfl⟩
      | ok tasks =>
        rw [found] at later
        rcases later with ⟨items,all,loaded⟩ | ⟨-,e,loaded⟩
        · cases loaded
          exact .inl ⟨t :: tasks.filterMap id,by rw [all]; rfl,rfl⟩
        · cases loaded
    · exact .inr ⟨by simp only [loadRow,is]; rfl,e,by simp only [is]; rfl⟩

theorem pageLoaded {C : Type} {rows : List TaskRow} {limit : Nat} {cursorOf : Task → Except Thrown C}
    {cursor : TaskRow → C} {text : C → String}
    (there : ∀ row ∈ rows, row ∈ s.tasks.rows ∧ row.familyId = reader.familyId)
    (cursors : ∀ row ∈ rows, ∀ t, loadRow s reader row = some t → cursorOf t = .ok (cursor row)) :
    (respond text (do
      let tasks ← s.loadInOrder reader.familyId ((rows.take (limit + 1)).map TaskRow.id)
      let found ← page tasks limit cursorOf
      return .ok found)).found = pageOf limit (loadRow s reader) (fun row => text (cursor row)) rows := by
  unfold pageOf
  rcases @loadEach s reader (rows.take (limit + 1)) (fun row mem => there row (List.mem_of_mem_take mem)) with
    ⟨items,all,loaded⟩ | ⟨fails,e,loaded⟩
  · have length := mapMLength all
    rw [List.length_take] at length
    have taken := mapMTake all limit
    rw [List.take_take,Nat.min_eq_left (Nat.le_succ limit)] at taken
    have paged : page items limit cursorOf =
        .ok ⟨items.take limit,if limit < rows.length then ((rows.take limit).getLast?).map cursor else none⟩ := by
      unfold page
      cases isLast : (rows.take limit).getLast? with
      | none =>
        rw [List.getLast?_eq_none_iff.mp isLast] at taken
        obtain none_ : items.take limit = [] := (Option.some.inj taken).symm
        simp only [none_,List.getLast?_nil,Option.map_none,ite_self]
      | some last =>
        obtain ⟨t,lastItem,is⟩ := mapMLast taken isLast
        have own := cursors last (List.mem_of_mem_take (List.mem_of_getLast? isLast)) t is
        simp only [lastItem,own]
        by_cases more : limit < rows.length
        · have longer : limit < items.length := by omega
          rw [if_pos longer,if_pos more]
          rfl
        · have short : ¬ limit < items.length := by omega
          rw [if_neg short,if_neg more]
    rw [loaded,all,Option.map_some]
    simp only [bind,Except.bind,paged]
    split
    · cases (rows.take limit).getLast? <;> rfl
    · rfl
  · rw [loaded,fails]
    rfl

variable {p : Platform} {cursor : Option String}

theorem openFetched {query : OpenTasksQuery} {after : Option OpenCursor} (fits : StoreFits intl s)
    (accepted : checkRange query.dueFrom query.dueTo = none) (decoded : decodeOpenCursor p cursor = some after) :
    (listOpenTasksRoute p intl s reader query cursor).found =
      pageOf (pageSize query.limit) (loadRow s reader) (fun row => openCursorText p ⟨row.dueAt,row.id⟩)
        ((s.tasks.rows.filter (fun row => s.selectsOpen reader.familyId (query.selection reader none 0) row &&
          after.all (fun after => after.before row))).insertionSort openOrder) := by
  have selects : s.selectsOpen reader.familyId (query.selection reader after (pageSize query.limit + 1)) =
      fun row => s.selectsOpen reader.familyId (query.selection reader none 0) row &&
        after.all (fun after => after.before row) := by
    funext row
    simp only [Store.selectsOpen,OpenTasksQuery.selection,Option.all_none,Bool.and_true]
  simp only [listOpenTasksRoute,decoded,listOpenTasks,accepted]
  rw [← selects]
  refine pageLoaded (fun row mem => ?_) (fun row mem t loaded => ?_)
  · obtain ⟨there,selected⟩ := List.mem_filter.mp ((List.mem_insertionSort _).mp mem)
    simp only [Store.selectsOpen,Bool.and_eq_true,decide_eq_true_eq] at selected
    exact ⟨there,selected.1.1.1.1.1.1.1⟩
  · have there := List.mem_of_mem_filter ((List.mem_insertionSort _).mp mem)
    obtain ⟨-,-,is⟩ := loadSource there loaded
    have moment := (loadedFits (fits _ _ (Table.findMember there)) is).2
    simp only [moment,orThrow,is.id]
    rfl

theorem rangeGiven {start stop : Option Instant} (accepted : checkRange (some start) (some stop) = none) :
    (∃ i, start = some i) ∧ ∃ i, stop = some i := by
  unfold checkRange at accepted
  split at accepted
  · cases accepted
  · rename_i given
    simp only [Option.some.injEq,not_or] at given
    exact ⟨Option.ne_none_iff_exists'.mp given.1,Option.ne_none_iff_exists'.mp given.2⟩

theorem selectedClosed {query : TaskHistoryQuery} (accepted : checkRange (some query.start) (some query.stop) = none)
    (selected : s.selectsClosed reader.familyId (query.selection reader none 0) row = true) :
    ∃ i, row.closedAt = some i := by
  obtain ⟨⟨start,is⟩,-⟩ := rangeGiven accepted
  simp only [Store.selectsClosed,TaskHistoryQuery.selection,Bool.and_eq_true,is,Option.all_some] at selected
  have since := selected.1.1.1.2
  cases closed : row.closedAt with
  | none =>
    rw [closed] at since
    cases since
  | some i => exact ⟨i,rfl⟩

theorem closedFetched {query : TaskHistoryQuery} {after : Option ClosedCursor} (fits : StoreFits intl s)
    (accepted : checkRange (some query.start) (some query.stop) = none)
    (decoded : decodeClosedCursor p cursor = some after) :
    (listTaskHistoryRoute p s reader query cursor).found =
      pageOf (pageSize query.limit) (loadRow s reader) (fun row => closedCursorText p ⟨row.closedAt.getD 0,row.id⟩)
        ((s.tasks.rows.filter (fun row => s.selectsClosed reader.familyId (query.selection reader none 0) row &&
          after.all (fun after => after.before row))).insertionSort closedOrder) := by
  have selects : s.selectsClosed reader.familyId (query.selection reader after (pageSize query.limit + 1)) =
      fun row => s.selectsClosed reader.familyId (query.selection reader none 0) row &&
        after.all (fun after => after.before row) := by
    funext row
    simp only [Store.selectsClosed,TaskHistoryQuery.selection,Option.all_none,Bool.and_true]
  simp only [listTaskHistoryRoute,decoded,listTaskHistory,accepted]
  have source : ∀ row, row ∈ (s.tasks.rows.filter (fun row => s.selectsClosed reader.familyId
      (query.selection reader none 0) row && after.all (fun after => after.before row))).insertionSort closedOrder →
      row ∈ s.tasks.rows ∧ s.selectsClosed reader.familyId (query.selection reader none 0) row = true := by
    intro row mem
    obtain ⟨there,selected⟩ := List.mem_filter.mp ((List.mem_insertionSort _).mp mem)
    exact ⟨there,(Bool.and_eq_true_iff.mp selected).1⟩
  rw [← selects] at source ⊢
  refine pageLoaded (fun row mem => ?_) (fun row mem t loaded => ?_)
  · obtain ⟨there,selected⟩ := source row mem
    simp only [Store.selectsClosed,Bool.and_eq_true,decide_eq_true_eq] at selected
    exact ⟨there,selected.1.1.1.1.1⟩
  · obtain ⟨there,selected⟩ := source row mem
    obtain ⟨-,-,is⟩ := loadSource there loaded
    obtain ⟨i,closed⟩ := selectedClosed accepted selected
    have own := (loadedClosed (fits _ _ (Table.findMember there)) is).trans closed
    obtain ⟨⟨time,member⟩,made,rfl⟩ := Option.map_eq_some_iff.mp own
    rw [made,closed,is.id]
    rfl

theorem keysetAfter {x y : Int} {a b : Nat} (same : a = b → x = y) :
    (x < y ∨ (y = x ∧ a < b)) ↔ (x < y ∨ (x = y ∧ a ≤ b)) ∧ a ≠ b := by omega

theorem keysetFollows {x y : Int} {a b : Nat} (same : b = a → y = x) :
    (y < x ∨ (y = x ∧ b < a)) ↔ (y < x ∨ (x = y ∧ b ≤ a)) ∧ a ≠ b := by omega

theorem openAfter {a b : TaskRow} (same : a.id = b.id → a = b) :
    (OpenCursor.mk a.dueAt a.id).before b = true ↔ Strict TaskRow.id openOrder a b := by
  unfold Strict openOrder OpenCursor.before
  cases first : a.dueAt with
  | none =>
    cases second : b.dueAt with
    | none => simpa using Nat.lt_iff_le_and_ne
    | some y => simp
  | some x =>
    cases second : b.dueAt with
    | none =>
      have apart : a.id ≠ b.id := by
        intro is
        rw [same is,second] at first
        cases first
      simpa using apart
    | some y =>
      have moments : a.id = b.id → x = y := by
        intro is
        rw [same is,second] at first
        exact (Option.some.inj first).symm
      simpa using keysetAfter moments

theorem closedFollows {a b : TaskRow} {i j : Instant} (closed : a.closedAt = some i) (closed' : b.closedAt = some j)
    (same : a.id = b.id → a = b) : (ClosedCursor.mk i a.id).before b = true ↔ Strict TaskRow.id closedOrder a b := by
  have moments : b.id = a.id → j = i := by
    intro is
    rw [same is.symm,closed'] at closed
    exact Option.some.inj closed
  simp only [Strict,closedOrder,ClosedCursor.before,closed,closed',Option.getD_some,Option.any_some,Option.some.injEq,
    Bool.or_eq_true,Bool.and_eq_true,decide_eq_true_eq]
  exact keysetFollows moments

theorem openKeyset (p : Platform) (query : OpenTasksQuery) (reader : Reader) (fits : StoreFits intl s)
    (accepted : checkRange query.dueFrom query.dueTo = none) :
    Keyset (Strict TaskRow.id openOrder) (pageSize query.limit) (loadRow s reader)
      (fun row => openCursorText p ⟨row.dueAt,row.id⟩)
      ((s.tasks.rows.filter (s.selectsOpen reader.familyId (query.selection reader none 0))).insertionSort openOrder)
      (fun cursor => (listOpenTasksRoute p intl s reader query cursor).found) := by
  refine tableKeyset openOrderApart ?_ (fun r there selected => ⟨(OpenCursor.mk r.dueAt r.id).before,fun x mem _ => ?_,?_⟩)
  · have first : (listOpenTasksRoute p intl s reader query none).found = _ := openFetched fits accepted rfl
    simpa only [Option.all_none,Bool.and_true] using first
  · exact openAfter (fun is => Table.equalOfKey there mem is)
  · have dated := rowDueDated (fits _ _ (Table.findMember there))
    exact openFetched fits accepted (decodeOpen dated)

theorem closedKeyset (p : Platform) (query : TaskHistoryQuery) (reader : Reader) (fits : StoreFits intl s)
    (clocked : StoreClocked s) (accepted : checkRange (some query.start) (some query.stop) = none) :
    Keyset (Strict TaskRow.id closedOrder) (pageSize query.limit) (loadRow s reader)
      (fun row => closedCursorText p ⟨row.closedAt.getD 0,row.id⟩)
      ((s.tasks.rows.filter (s.selectsClosed reader.familyId (query.selection reader none 0))).insertionSort closedOrder)
      (fun cursor => (listTaskHistoryRoute p s reader query cursor).found) := by
  refine tableKeyset closedOrderApart ?_ (fun r there selected =>
    ⟨(ClosedCursor.mk (r.closedAt.getD 0) r.id).before,fun x mem selected' => ?_,?_⟩)
  · have first : (listTaskHistoryRoute p s reader query none).found = _ := closedFetched fits accepted rfl
    simpa only [Option.all_none,Bool.and_true] using first
  · obtain ⟨i,closed⟩ := selectedClosed accepted selected
    obtain ⟨j,closed'⟩ := selectedClosed accepted selected'
    rw [closed,Option.getD_some]
    exact closedFollows closed closed' (fun is => Table.equalOfKey there mem is)
  · obtain ⟨i,closed⟩ := selectedClosed accepted selected
    have dated := clocked _ _ (Table.findMember there) i closed
    rw [closed,Option.getD_some]
    exact closedFetched fits accepted (decodeClosed dated)

theorem boundIff {dueAt bound : Option Instant} (moment : t.dueAt intl = some dueAt) {le : Instant → Instant → Prop}
    [DecidableRel le] : bound.all (fun b => dueAt.any (fun d => le b d)) = true ↔
      ∀ b, bound = some b → ∃ d, t.dueAt intl = some (some d) ∧ le b d := by
  rw [moment]
  cases bound with
  | none => simp
  | some b => cases dueAt <;> simp

theorem selectsMatches {query : OpenTasksQuery} (fits : RowFits intl row)
    (loaded : Loaded row (s.assigneesOf row.id) t) :
    s.selectsOpen reader.familyId (query.selection reader none 0) row = true ↔
      row.familyId = reader.familyId ∧ (∀ m ∈ t.assignees, m ∈ reader.visible) ∧ query.Matches intl reader.now t := by
  have moment := (loadedFits fits loaded).2
  have visible : s.visibleOnly reader.visible row = true ↔ ∀ m ∈ t.assignees, m ∈ reader.visible := by
    rw [visibleAll,loaded.assignees]
  have assigned : query.assignee.all (fun member => s.assignedTo member row) = true ↔
      ∀ member, query.assignee = some member → member ∈ t.assignees := by
    rw [loaded.assignees]
    cases query.assignee with
    | none => simp
    | some m => simpa using assignedMember
  have opened : decide (row.status = .opened) = t.isOpen := by
    simp only [Task.isOpen,stateStatus loaded.state]
  simp only [Store.selectsOpen,OpenTasksQuery.selection,Option.all_none,Bool.and_true,Bool.and_eq_true,visible,assigned,
    opened,decide_eq_true_eq,boundIff moment]
  constructor
  · rintro ⟨⟨⟨⟨⟨⟨family,opened⟩,seen⟩,assignee⟩,overdue⟩,start⟩,stop⟩
    exact ⟨family,seen,opened,assignee,fun is => overdue reader.now (if_pos is),start,stop⟩
  · rintro ⟨family,seen,opened,assignee,overdue,start,stop⟩
    refine ⟨⟨⟨⟨⟨⟨family,opened⟩,seen⟩,assignee⟩,fun now is => ?_⟩,start⟩,stop⟩
    by_cases asked : query.overdue = true
    · rw [if_pos asked] at is
      exact Option.some.inj is ▸ overdue asked
    · rw [if_neg asked] at is
      cases is

theorem selectsHistory {query : TaskHistoryQuery} (fits : RowFits intl row)
    (loaded : Loaded row (s.assigneesOf row.id) t) :
    s.selectsClosed reader.familyId (query.selection reader none 0) row = true ↔
      row.familyId = reader.familyId ∧ (∀ m ∈ t.assignees, m ∈ reader.visible) ∧ query.Matches t := by
  have visible : s.visibleOnly reader.visible row = true ↔ ∀ m ∈ t.assignees, m ∈ reader.visible := by
    rw [visibleAll,loaded.assignees]
  have opened : decide (row.status ≠ .opened) = true ↔ t.isOpen = false := by
    simp only [Task.isOpen,stateStatus loaded.state,decide_eq_true_eq,decide_eq_false_iff_not,ne_eq]
  simp only [Store.selectsClosed,TaskHistoryQuery.selection,Option.all_none,Bool.and_true,Bool.and_eq_true,visible,opened,
    Option.all_eq_true,Option.any_eq_true,decide_eq_true_eq,← loadedClosed fits loaded]
  constructor
  · rintro ⟨⟨⟨⟨family,closed⟩,start⟩,stop⟩,seen⟩
    exact ⟨family,seen,closed,start,stop⟩
  · rintro ⟨family,seen,closed,start,stop⟩
    exact ⟨⟨⟨⟨family,closed⟩,start⟩,stop⟩,seen⟩

theorem getSource : getTask s reader t.id = .ok (.ok t) ↔
    (∃ row ∈ s.tasks.rows, row.familyId = reader.familyId ∧ loadRow s reader row = some t) ∧
      ∀ m ∈ t.assignees, m ∈ reader.visible := by
  constructor
  · intro got
    obtain ⟨found,read,got⟩ := bindSource got
    cases found with
    | none => cases got
    | some u =>
      simp only at got
      split at got
      · cases got
      · rename_i seen
        cases got
        obtain ⟨row,there,is,family,-⟩ := Store.lockSource read
        refine ⟨⟨row,(Table.findSource there).1,family,?_⟩,by simpa using seen⟩
        rw [loadRow,is,read]
  · rintro ⟨⟨row,mem,-,loaded⟩,seen⟩
    obtain ⟨read,-,is⟩ := loadSource mem loaded
    have visible : ¬ t.assignees.any (· ∉ reader.visible) = true := by simpa using seen
    simp only [getTask,is.id,read,bind,Except.bind,if_neg visible]
    rfl

section
variable {selects : TaskRow → Bool} {le : TaskRow → TaskRow → Prop} {asked : Task → Prop}
  {before : Task → Task → Prop} {rows : List TaskRow} {items : List Task}

theorem selectionOrdered (fits : StoreFits intl s)
    (source : ∀ row, row ∈ rows ↔ row ∈ s.tasks.rows ∧ selects row = true)
    (ordered : rows.Pairwise (Strict TaskRow.id le))
    (keeps : ∀ a b x y, RowFits intl a → RowFits intl b → Loaded a (s.assigneesOf a.id) x →
      Loaded b (s.assigneesOf b.id) y → selects a = true → selects b = true → le a b → x.id ≠ y.id → before x y)
    (loaded : rows.mapM (loadRow s reader) = some items) : items.Pairwise (fun x y => before x y ∧ x.id ≠ y.id) := by
  refine mapMPairwise loaded ordered (fun a memA b memB less x y loadedA loadedB => ?_)
  obtain ⟨thereA,selectedA⟩ := (source a).mp memA
  obtain ⟨thereB,selectedB⟩ := (source b).mp memB
  obtain ⟨-,-,isA⟩ := loadSource thereA loadedA
  obtain ⟨-,-,isB⟩ := loadSource thereB loadedB
  have apart : x.id ≠ y.id := isA.id ▸ isB.id ▸ less.2
  exact ⟨keeps a b x y (fits _ _ (Table.findMember thereA)) (fits _ _ (Table.findMember thereB)) isA isB selectedA
    selectedB less.1 apart,apart⟩

theorem selectionMem (fits : StoreFits intl s) (source : ∀ row, row ∈ rows ↔ row ∈ s.tasks.rows ∧ selects row = true)
    (asks : ∀ row t, RowFits intl row → Loaded row (s.assigneesOf row.id) t → (selects row = true ↔
      row.familyId = reader.familyId ∧ (∀ m ∈ t.assignees, m ∈ reader.visible) ∧ asked t))
    (loaded : rows.mapM (loadRow s reader) = some items) {t : Task} :
    t ∈ items ↔ getTask s reader t.id = .ok (.ok t) ∧ asked t := by
  rw [mapMMem loaded,getSource]
  constructor
  · rintro ⟨row,mem,loads⟩
    obtain ⟨there,selected⟩ := (source row).mp mem
    obtain ⟨family,seen,asked⟩ :=
      (asks row t (fits _ _ (Table.findMember there)) (loadSource there loads).2.2).mp selected
    exact ⟨⟨⟨row,there,family,loads⟩,seen⟩,asked⟩
  · rintro ⟨⟨⟨row,there,family,loads⟩,seen⟩,asked⟩
    have selected := (asks row t (fits _ _ (Table.findMember there)) (loadSource there loads).2.2).mpr
      ⟨family,seen,asked⟩
    exact ⟨row,(source row).mpr ⟨there,selected⟩,loads⟩

end

theorem givesSelection {selects : TaskRow → Bool} {le : TaskRow → TaskRow → Prop} [DecidableRel le] {limit : Nat}
    {cursorOf : TaskRow → String} {fetch : Option String → ListResponse} {asked : Task → Prop}
    {before : Task → Task → Prop} (fits : StoreFits intl s) (positive : 0 < limit)
    (keyset : Keyset (Strict TaskRow.id le) limit (loadRow s reader) cursorOf
      ((s.tasks.rows.filter selects).insertionSort le) (fun cursor => (fetch cursor).found))
    (own : ∀ row, selects row = true → row.familyId = reader.familyId)
    (asks : ∀ row t, RowFits intl row → Loaded row (s.assigneesOf row.id) t → (selects row = true ↔
      row.familyId = reader.familyId ∧ (∀ m ∈ t.assignees, m ∈ reader.visible) ∧ asked t))
    (keeps : ∀ a b x y, RowFits intl a → RowFits intl b → Loaded a (s.assigneesOf a.id) x →
      Loaded b (s.assigneesOf b.id) y → selects a = true → selects b = true → le a b → x.id ≠ y.id → before x y) :
    (∃ items, Gives fetch s.tasks.rows.length (fun t => getTask s reader t.id = .ok (.ok t) ∧ asked t) before items) ↔
      ∀ row ∈ s.tasks.rows, selects row = true → ¬ s.Unreadable reader row.id := by
  generalize listed : (s.tasks.rows.filter selects).insertionSort le = rows at keyset
  have most : rows.length ≤ s.tasks.rows.length := by
    rw [← listed,List.length_insertionSort]
    exact List.length_filter_le _ _
  have source : ∀ row, row ∈ rows ↔ row ∈ s.tasks.rows ∧ selects row = true := by
    intro row
    rw [← listed,List.mem_insertionSort,List.mem_filter]
  have follows : ∀ fuel, s.tasks.rows.length < fuel →
      follow (fun cursor => (fetch cursor).found) fuel none = rows.mapM (loadRow s reader) :=
    fun fuel enough => followAll keyset positive (Nat.lt_of_le_of_lt most enough)
  have all := @mapMAll TaskRow Task (loadRow s reader) rows
  constructor
  · rintro ⟨items,gives⟩ row there selected
    have loaded := (follows _ (Nat.lt_succ_self _)).symm.trans (gives.ends _ (Nat.lt_succ_self _))
    exact (loadRead fits there (own row selected)).mp (all.mp ⟨items,loaded⟩ row ((source row).mpr ⟨there,selected⟩))
  · intro readable
    obtain ⟨items,loaded⟩ := all.mpr (fun row mem => by
      obtain ⟨there,selected⟩ := (source row).mp mem
      exact (loadRead fits there (own row selected)).mpr (readable row there selected))
    have pairs := selectionOrdered fits source keyset.ordered keeps loaded
    exact ⟨items,fun fuel enough => (follows fuel enough).trans loaded,fun t => selectionMem fits source asks loaded,
      List.pairwise_map.mpr (pairs.imp And.right),pairs.imp And.left⟩

theorem pagePositive (limit : Option Int) : 0 < pageSize limit := by
  unfold pageSize maxPageSize
  omega

theorem givesOpen (p : Platform) (query : OpenTasksQuery) (reader : Reader) (fits : StoreFits intl s)
    (accepted : checkRange query.dueFrom query.dueTo = none) :
    (∃ items, Gives (listOpenTasksRoute p intl s reader query) s.tasks.rows.length
      (fun t => getTask s reader t.id = .ok (.ok t) ∧ query.Matches intl reader.now t) (dueBefore intl) items) ↔
    ∀ row ∈ s.tasks.rows, s.selectsOpen reader.familyId (query.selection reader none 0) row = true →
      ¬ s.Unreadable reader row.id := by
  refine givesSelection fits (pagePositive _) (openKeyset p query reader fits accepted) (fun row selected => ?_)
    (fun row t fit loaded => selectsMatches fit loaded) (fun a b x y fitA fitB isA isB _ _ order apart => ?_)
  · simp only [Store.selectsOpen,Bool.and_eq_true,decide_eq_true_eq] at selected
    exact selected.1.1.1.1.1.1.1
  · unfold dueBefore openOrder at *
    rw [(loadedFits fitA isA).2,(loadedFits fitB isB).2]
    rw [← isA.id,← isB.id] at order
    cases first : a.dueAt <;> cases second : b.dueAt <;> simp only [first,second] at order ⊢
    · exact Nat.lt_of_le_of_ne order apart
    · exact order.imp_right (And.imp_right (fun le => Nat.lt_of_le_of_ne le apart))

theorem givesHistory (p : Platform) (query : TaskHistoryQuery) (reader : Reader) (fits : StoreFits intl s)
    (clocked : StoreClocked s) (accepted : checkRange (some query.start) (some query.stop) = none) :
    (∃ items, Gives (listTaskHistoryRoute p s reader query) s.tasks.rows.length
      (fun t => getTask s reader t.id = .ok (.ok t) ∧ query.Matches t) closedAfter items) ↔
    ∀ row ∈ s.tasks.rows, s.selectsClosed reader.familyId (query.selection reader none 0) row = true →
      ¬ s.Unreadable reader row.id := by
  refine givesSelection fits (pagePositive _) (closedKeyset p query reader fits clocked accepted) (fun row selected => ?_)
    (fun row t fit loaded => selectsHistory fit loaded)
    (fun a b x y fitA fitB isA isB selectedA selectedB order apart => ?_)
  · simp only [Store.selectsClosed,Bool.and_eq_true,decide_eq_true_eq] at selected
    exact selected.1.1.1.1.1
  · obtain ⟨i,closedA⟩ := selectedClosed accepted selectedA
    obtain ⟨j,closedB⟩ := selectedClosed accepted selectedB
    unfold closedAfter closedOrder at *
    rw [loadedClosed fitA isA,loadedClosed fitB isB]
    rw [← isA.id,← isB.id] at order
    rw [closedA,closedB] at order ⊢
    exact order.imp_right (And.imp_right (fun le => Nat.lt_of_le_of_ne le (Ne.symm apart)))

end

/- What is promised of a store's lists. -/
def Walked (p : Platform) (intl : Intl) (s : Store) (reader : Reader) : Prop :=
  (∀ query : OpenTasksQuery, checkRange query.dueFrom query.dueTo = none →
    ∃ items, Gives (listOpenTasksRoute p intl s reader query) s.tasks.rows.length
      (fun t => getTask s reader t.id = .ok (.ok t) ∧ query.Matches intl reader.now t) (dueBefore intl) items) ∧
  ∀ query : TaskHistoryQuery, checkRange (some query.start) (some query.stop) = none →
    ∃ items, Gives (listTaskHistoryRoute p s reader query) s.tasks.rows.length
      (fun t => getTask s reader t.id = .ok (.ok t) ∧ query.Matches t) closedAfter items

/-- In every store of every run: a list gives what the reader may see and has asked for, each task once and in order, if
and only if no task among them is stored with a rule that is not read. -/
theorem listsGiven (p : Platform) (intl : Intl) (moves : List (RowLock.Move Work))
    (dated : ∀ w, .begin w ∈ moves → w.Dated intl ∧ w.Clocked) (last : RowLock.Config Store Work View WorkOutcome)
    (ran : RowLock.run (works intl) (RowLock.begins Store.empty) moves = some last) (reader : Reader) :
    (∀ query : OpenTasksQuery, checkRange query.dueFrom query.dueTo = none →
      ((∃ items, Gives (listOpenTasksRoute p intl last.store reader query) last.store.tasks.rows.length
        (fun t => getTask last.store reader t.id = .ok (.ok t) ∧ query.Matches intl reader.now t) (dueBefore intl) items) ↔
      ∀ row ∈ last.store.tasks.rows, last.store.selectsOpen reader.familyId (query.selection reader none 0) row = true →
        ¬ last.store.Unreadable reader row.id)) ∧
    ∀ query : TaskHistoryQuery, checkRange (some query.start) (some query.stop) = none →
      ((∃ items, Gives (listTaskHistoryRoute p last.store reader query) last.store.tasks.rows.length
        (fun t => getTask last.store reader t.id = .ok (.ok t) ∧ query.Matches t) closedAfter items) ↔
      ∀ row ∈ last.store.tasks.rows,
        last.store.selectsClosed reader.familyId (query.selection reader none 0) row = true →
          ¬ last.store.Unreadable reader row.id) := by
  have fits := runFits (fun w mem => (dated w mem).1) ran
  exact ⟨fun query accepted => givesOpen p query reader fits accepted,
    fun query accepted => givesHistory p query reader fits (runClocked dated ran) accepted⟩

def listedMoves (rule : Option String) : List (RowLock.Move Work) :=
  [.begin (choreOf (.createTask (choreDue ⟨2026,9,30⟩ none)) 1 []),.lock 0,
   .begin (choreOf (.createTask (choreDue ⟨2026,9,30⟩ rule)) 1 []),.lock 1,
   .begin (choreOf (.createTask (choreDue ⟨2026,9,30⟩ none)) 1 []),.lock 2,
   .begin (choreOf (.completeTask 2 1) 1 []),.lock 3,.commit 3]

theorem listedDated (rule : Option String) : ∀ w, .begin w ∈ listedMoves rule → w.Dated everywhereUtc ∧ w.Clocked := by
  have due : ∀ rule due, (choreDue ⟨2026,9,30⟩ rule).due = some due → Written everywhereUtc due := by
    rintro rule due ⟨⟩
    exact ⟨⟨.dateTime "2026-09-30" "18:30" "Europe/London",by decide +kernel⟩,by decide⟩
  intro w mem
  simp only [listedMoves,List.mem_cons,RowLock.Move.begin.injEq,reduceCtorEq,List.not_mem_nil,false_or,or_false] at mem
  have clock : timeClip 1000 = some 1000 := by decide
  rcases mem with rfl | rfl | rfl | rfl
  · exact ⟨due _,clock⟩
  · exact ⟨due _,clock⟩
  · exact ⟨due _,clock⟩
  · exact ⟨trivial,clock⟩

def listReader : Reader := ⟨0,1,[1,2,7],[1,2,7],2000,2000⟩

theorem choresListed : ∃ last : RowLock.Config Store Work View WorkOutcome,
    (∃ items, Gives (listOpenTasksRoute platform everywhereUtc last.store listReader ⟨none,false,none,none,some 1⟩) 3
      (fun t => getTask last.store listReader t.id = .ok (.ok t) ∧
        (OpenTasksQuery.mk none false none none (some 1)).Matches everywhereUtc 2000 t) (dueBefore everywhereUtc) items ∧
      items.map Task.id = [0,1]) ∧
    ∃ items, Gives (listTaskHistoryRoute platform last.store listReader ⟨some 0,some 2000,some 1⟩) 3
      (fun t => getTask last.store listReader t.id = .ok (.ok t) ∧
        (TaskHistoryQuery.mk (some 0) (some 2000) (some 1)).Matches t) closedAfter items ∧ items.map Task.id = [2] := by
  have run : (RowLock.run (works everywhereUtc) (RowLock.begins Store.empty) (listedMoves none)).map (fun c =>
      (c.store.tasks.rows.length,c.store.tasks.rows.all (fun row => row.recurrenceRule.isNone),
        (follow (fun cursor => (listOpenTasksRoute platform everywhereUtc c.store listReader ⟨none,false,none,none,some 1⟩
          cursor).found) 4 none).map (fun items => items.map Task.id),
        (follow (fun cursor => (listTaskHistoryRoute platform c.store listReader ⟨some 0,some 2000,some 1⟩
          cursor).found) 4 none).map (fun items => items.map Task.id))) = some (3,true,some [0,1],some [2]) := by
    decide +kernel
  obtain ⟨last,ran,is⟩ := Option.map_eq_some_iff.mp run
  simp only [Prod.mk.injEq] at is
  obtain ⟨three,ruleless,opened,closed⟩ := is
  obtain ⟨lists,history⟩ := listsGiven platform everywhereUtc (listedMoves none) (listedDated none) last ran listReader
  have readable : ∀ row ∈ last.store.tasks.rows, ¬ last.store.Unreadable listReader row.id := by
    rintro row mem ⟨row',text,found,-,stored,-⟩
    have none_ := List.all_eq_true.mp ruleless row' (Table.findSource found).1
    rw [stored] at none_
    cases none_
  rw [three] at lists history
  obtain ⟨items,gives⟩ := (lists ⟨none,false,none,none,some 1⟩ (by decide)).mpr (fun row mem _ => readable row mem)
  obtain ⟨items',gives'⟩ := (history ⟨some 0,some 2000,some 1⟩ (by decide)).mpr (fun row mem _ => readable row mem)
  rw [gives.ends 4 (by decide)] at opened
  rw [gives'.ends 4 (by decide)] at closed
  exact ⟨last,⟨items,gives,Option.some.inj opened⟩,items',gives',Option.some.inj closed⟩

theorem choreUnlisted : ¬ ∀ (p : Platform) (intl : Intl) (moves : List (RowLock.Move Work)),
    (∀ w, .begin w ∈ moves → w.Dated intl ∧ w.Clocked) →
    ∀ last : RowLock.Config Store Work View WorkOutcome,
      RowLock.run (works intl) (RowLock.begins Store.empty) moves = some last →
        ∀ reader, Walked p intl last.store reader := by
  intro all
  have run : (RowLock.run (works everywhereUtc) (RowLock.begins Store.empty)
      (listedMoves (some "FREQ=DAILY;INTERVAL=1000000000000000000000"))).map (fun c =>
        (c.store.tasks.rows.length,follow (fun cursor => (listOpenTasksRoute platform everywhereUtc c.store listReader
          ⟨none,false,none,none,some 1⟩ cursor).found) 4 none)) = some (3,none) := by decide +kernel
  obtain ⟨last,ran,is⟩ := Option.map_eq_some_iff.mp run
  simp only [Prod.mk.injEq] at is
  obtain ⟨items,gives⟩ := (all platform everywhereUtc _ (listedDated _) last ran listReader).1
    ⟨none,false,none,none,some 1⟩ (by decide)
  rw [is.1] at gives
  exact absurd ((gives.ends 4 (by decide)).symm.trans is.2) (by simp)

end FamilyPlatform.Api
