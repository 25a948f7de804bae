import Mathlib.Data.List.Find
import FamilyPlatform.Calendar.Slots

/-! What a reconcile leaves: in its scope the planned occurrences with their ends, outside of it what was there. -/
namespace FamilyPlatform.Calendar
open ZonedTime

def inScope (scopeFrom : Option Instant) (x : Instant) : Bool := scopeFrom.all (· ≤ x)

def Lists (s : Store) (id : CalendarEventId) (scopeFrom : Option Instant) (existing : List EventOccurrence) : Prop :=
  ∀ o, o ∈ existing ↔ s.slot id o.startsAt = some o ∧ inScope scopeFrom o.startsAt = true

def plannedEnd (planned : List PlannedOccurrence) (x : Instant) : Option Instant :=
  (planned.find? (fun p => p.startsAt = x)).bind PlannedOccurrence.endsAt

section
variable {s : Store} {id : CalendarEventId} {scopeFrom : Option Instant} {o : EventOccurrence} {x : Instant}
  {planned : List PlannedOccurrence} {existing : List EventOccurrence} {p : PlannedOccurrence}

theorem memListForEvent : o ∈ s.listForEvent id scopeFrom ↔
    o ∈ s.occurrences.rows ∧ o.eventId = id ∧ inScope scopeFrom o.startsAt = true := by
  simp only [Store.listForEvent,List.mem_insertionSort,List.mem_filter,Bool.and_eq_true,decide_eq_true_eq,inScope]

theorem listedSlot : o ∈ s.listForEvent id scopeFrom ↔
    s.slot id o.startsAt = some o ∧ inScope scopeFrom o.startsAt = true := by
  rw [memListForEvent,Store.slot,Occurrences.slotSource]
  tauto

theorem listForEventLists : Lists s id scopeFrom (s.listForEvent id scopeFrom) := fun _ => listedSlot

theorem rowAtSlot (lists : Lists s id scopeFrom existing) :
    rowAt existing x = if inScope scopeFrom x then s.slot id x else none := by
  have source : ∀ o, o ∈ existing.filter (fun row => row.startsAt = x) ↔
      s.slot id x = some o ∧ inScope scopeFrom x = true := by
    intro o
    rw [List.mem_filter,lists,decide_eq_true_eq]
    constructor
    · rintro ⟨both,rfl⟩
      exact both
    · rintro ⟨found,within⟩
      obtain ⟨-,-,rfl⟩ := Store.slotOwn found
      exact ⟨⟨found,within⟩,rfl⟩
  unfold rowAt
  cases last : (existing.filter (fun row => row.startsAt = x)).getLast? with
  | none =>
    have empty := List.getLast?_eq_none_iff.mp last
    split
    · rename_i within
      cases found : s.slot id x with
      | none => rfl
      | some o =>
        have mem := (source o).mpr ⟨found,within⟩
        rw [empty] at mem
        cases mem
    · rfl
  | some o =>
    obtain ⟨found,within⟩ := (source o).mp (List.mem_of_getLast? last)
    rw [if_pos within,found]

def endOf (existing : List EventOccurrence) (p : PlannedOccurrence) : Option (EventOccurrenceId × Option Instant) :=
  (rowAt existing p.startsAt).bind (fun row => if some row.endsAt = p.endsAt then none else some (row.id,p.endsAt))

theorem matchAllIs (distinct : (planned.map PlannedOccurrence.startsAt).Nodup) : matchAll planned existing =
    ⟨planned.map PlannedOccurrence.startsAt,planned.filter (fun p => (rowAt existing p.startsAt).isNone),
      planned.filterMap (endOf existing)⟩ := by
  have from_ : ∀ (rest : List PlannedOccurrence) (done : Matching), (rest.map PlannedOccurrence.startsAt).Nodup →
      (∀ p ∈ rest, p.startsAt ∉ done.plannedStarts) → rest.foldl (matchNext existing) done =
        ⟨done.plannedStarts ++ rest.map PlannedOccurrence.startsAt,
          done.toInsert ++ rest.filter (fun p => (rowAt existing p.startsAt).isNone),
          done.toUpdate ++ rest.filterMap (endOf existing)⟩ := by
    intro rest
    induction rest with
    | nil => intro done _ _; simp
    | cons p rest ih =>
      intro done distinct fresh
      obtain ⟨apart,distinct⟩ := List.nodup_cons.mp distinct
      have new := fresh p List.mem_cons_self
      have next : ∀ q ∈ rest, q.startsAt ∉ (matchNext existing done p).plannedStarts := by
        intro q mem seen
        have starts : (matchNext existing done p).plannedStarts = done.plannedStarts ++ [p.startsAt] := by
          unfold matchNext
          rw [if_neg new]
          cases rowAt existing p.startsAt with
          | none => rfl
          | some row =>
            simp only
            split <;> rfl
        rw [starts] at seen
        rcases List.mem_append.mp seen with old | same
        · exact fresh q (List.mem_cons_of_mem p mem) old
        · exact apart (List.mem_map.mpr ⟨q,mem,List.mem_singleton.mp same⟩)
      rw [List.foldl_cons,ih _ distinct next]
      unfold matchNext
      rw [if_neg new]
      cases found : rowAt existing p.startsAt with
      | none => simp [found,endOf]
      | some row =>
        by_cases same : some row.endsAt = p.endsAt
        · simp [found,endOf,same]
        · simp [found,endOf,same]
  exact from_ planned ⟨[],[],[]⟩ distinct (by simp)

theorem plannedEndOf (distinct : (planned.map PlannedOccurrence.startsAt).Nodup) (mem : p ∈ planned) :
    plannedEnd planned p.startsAt = p.endsAt := by
  unfold plannedEnd
  cases found : planned.find? (fun q => q.startsAt = p.startsAt) with
  | none =>
    have absent := List.find?_eq_none.mp found p mem
    simp at absent
  | some q =>
    have same := List.find?_some found
    simp only [decide_eq_true_eq] at same
    rw [List.inj_on_of_nodup_map distinct (List.mem_of_find?_eq_some found) mem same]
    rfl

theorem plannedEndNone (absent : x ∉ planned.map PlannedOccurrence.startsAt) : plannedEnd planned x = none := by
  unfold plannedEnd
  rw [List.find?_eq_none.mpr (fun p mem => ?_)]
  · rfl
  · simpa using fun same => absent (List.mem_map.mpr ⟨p,mem,same⟩)

def unplanned (id : CalendarEventId) (planned : List PlannedOccurrence) (existing : List EventOccurrence)
    (o : EventOccurrence) : Bool :=
  o.eventId = id && o.id ∈ (existing.filter (fun row => row.startsAt ∉ planned.map PlannedOccurrence.startsAt)).map
    EventOccurrence.id

theorem unplannedSource (lists : Lists s id scopeFrom existing) (found : s.slot id x = some o) :
    unplanned id planned existing o = true ↔ inScope scopeFrom x = true ∧ x ∉ planned.map PlannedOccurrence.startsAt := by
  obtain ⟨mem,own,rfl⟩ := Store.slotOwn found
  simp only [unplanned,own,decide_true,Bool.true_and,decide_eq_true_eq,List.mem_map (f := EventOccurrence.id),
    List.mem_filter]
  constructor
  · rintro ⟨other,⟨listed,apart⟩,same⟩
    obtain ⟨there,scope⟩ := (lists other).mp listed
    obtain rfl := Table.equalOfKey (Store.slotOwn there).1 mem same
    exact ⟨scope,apart⟩
  · rintro ⟨scope,apart⟩
    exact ⟨o,⟨(lists o).mpr ⟨found,scope⟩,apart⟩,rfl⟩

theorem unplannedSlot (lists : Lists s id scopeFrom existing) :
    (s.deleteOccurrences (unplanned id planned existing)).slot id x =
      if inScope scopeFrom x = true ∧ x ∉ planned.map PlannedOccurrence.startsAt then none else s.slot id x := by
  rw [Store.deleteSlot]
  cases found : s.slot id x with
  | none => simp
  | some o =>
    have source := @unplannedSource s id scopeFrom o x planned existing lists found
    split
    · rename_i drop
      simp [Option.filter,source.mpr drop]
    · rename_i keep
      simp [Option.filter,Bool.not_eq_true _ ▸ mt source.mp keep]

theorem endOfSource {u : EventOccurrenceId × Option Instant} (lists : Lists s id scopeFrom existing)
    (within : ∀ p ∈ planned, inScope scopeFrom p.startsAt = true)
    (mem : u ∈ planned.filterMap (endOf existing)) :
    ∃ p ∈ planned, ∃ o, s.slot id p.startsAt = some o ∧ some o.endsAt ≠ p.endsAt ∧ u = (o.id,p.endsAt) := by
  obtain ⟨p,source,is⟩ := List.mem_filterMap.mp mem
  obtain ⟨o,there,is⟩ := Option.bind_eq_some_iff.mp is
  rw [rowAtSlot lists,if_pos (within p source)] at there
  split at is <;> cases is
  exact ⟨p,source,o,there,by assumption,rfl⟩

theorem updatedEnd {base updated : Store} (lists : Lists s id scopeFrom existing)
    (distinct : (planned.map PlannedOccurrence.startsAt).Nodup)
    (within : ∀ p ∈ planned, inScope scopeFrom p.startsAt = true)
    (kept : ∀ x, base.slot id x =
      if inScope scopeFrom x = true ∧ x ∉ planned.map PlannedOccurrence.startsAt then none else s.slot id x)
    (ok : (planned.filterMap (endOf existing)).foldlM (fun s update => s.updateEnd id update) base = .ok updated)
    (x : Instant) :
    updated.endAt id x =
      if inScope scopeFrom x = true then (s.slot id x).bind (fun _ => plannedEnd planned x) else s.endAt id x := by
  obtain ⟨-,-,none_,some_⟩ := Store.updatesSource ok
  have one : ∀ {y o o'}, s.slot id x = some o → s.slot id y = some o' → o'.id = o.id → o' = o := fun found found' same =>
    Table.equalOfKey (Store.slotOwn found').1 (Store.slotOwn found).1 same
  cases found : s.slot id x with
  | none =>
    have gone := none_ x (by rw [kept,found,ite_self])
    simp [Store.endAt,gone,found]
  | some o =>
    have start := (Store.slotOwn found).2.2
    by_cases scope : inScope scopeFrom x = true
    swap
    · obtain ⟨o',last,-,becomes⟩ := some_ x o (by rw [kept,if_neg (fun both => scope both.1),found])
      rw [if_neg scope,Store.endAt,last,Store.endAt,found]
      rcases becomes with ⟨same,-⟩ | ⟨u,mem,at_,-⟩
      · rw [Option.map_some,same]
        rfl
      · obtain ⟨p,source,row,there,-,rfl⟩ := endOfSource lists within mem
        obtain rfl := one found there at_
        have here := (Store.slotOwn there).2.2
        exact absurd (within p source) (by rwa [← here,start])
    rw [if_pos scope,Option.bind_some]
    by_cases isPlanned : x ∈ planned.map PlannedOccurrence.startsAt
    swap
    · have gone := none_ x (by rw [kept,if_pos ⟨scope,isPlanned⟩])
      rw [Store.endAt,gone,plannedEndNone isPlanned]
      rfl
    obtain ⟨p,source,rfl⟩ := List.mem_map.mp isPlanned
    obtain ⟨o',last,-,becomes⟩ := some_ _ o (by rw [kept,if_neg (fun both => both.2 isPlanned),found])
    rw [Store.endAt,last,plannedEndOf distinct source,Option.map_some]
    rcases becomes with ⟨same,untouched⟩ | ⟨u,mem,at_,given⟩
    · rw [same]
      by_contra differs
      have row : rowAt existing p.startsAt = some o := by rw [rowAtSlot lists,if_pos scope,found]
      exact untouched (o.id,p.endsAt) (List.mem_filterMap.mpr ⟨p,source,by rw [endOf,row]; exact if_neg differs⟩) rfl
    · obtain ⟨q,source',row,there,-,rfl⟩ := endOfSource lists within mem
      obtain rfl := one found there at_
      have same := (Store.slotOwn there).2.2.symm.trans start
      rw [List.inj_on_of_nodup_map distinct source' source same] at given
      exact given.symm

/- What a plan inserts at an instant: what is planned there, if no row of the scope is there already. -/
theorem insertedAt (lists : Lists s id scopeFrom existing) (within : ∀ p ∈ planned, inScope scopeFrom p.startsAt = true)
    (x : Instant) :
    (planned.filter (fun p => (rowAt existing p.startsAt).isNone)).find? (fun p => p.startsAt = x) =
      if inScope scopeFrom x = true ∧ s.slot id x = none then planned.find? (fun p => p.startsAt = x) else none := by
  split
  · rename_i free
    rw [List.find?_filter]
    refine List.find?_congr (fun p mem => ?_)
    by_cases there : p.startsAt = x
    · simp [there,rowAtSlot lists,free.1,free.2]
    · simp [there]
  · rename_i taken
    refine List.find?_eq_none.mpr (fun p mem => ?_)
    obtain ⟨source,free⟩ := List.mem_filter.mp mem
    rw [decide_eq_true_eq]
    rintro rfl
    have scope := within p source
    rw [rowAtSlot lists,if_pos scope,Option.isNone_iff_eq_none] at free
    exact taken ⟨scope,free⟩

end

/-- A reconcile leaves the planned occurrences in its scope, each with its end, and what is outside of it alone. -/
theorem reconciled {s next : Store} {id : CalendarEventId} {scopeFrom : Option Instant} {counts : ReconcileCounts}
    {planned : List PlannedOccurrence} {existing : List EventOccurrence} (lists : Lists s id scopeFrom existing)
    (distinct : (planned.map PlannedOccurrence.startsAt).Nodup)
    (within : ∀ p ∈ planned, inScope scopeFrom p.startsAt = true)
    (ok : s.applyPlan id (reconcile planned existing) = .ok (counts,next)) :
    Store.Beside id s next ∧ (∀ p ∈ planned, ∃ endsAt, p.endsAt = some endsAt) ∧
      ∀ x, next.endAt id x = if inScope scopeFrom x then plannedEnd planned x else s.endAt id x := by
  have plan := @matchAllIs planned existing distinct
  simp only [Store.applyPlan,reconcile,plan] at ok
  obtain ⟨updated,updating,ok⟩ := bindSource ok
  obtain ⟨inserted,inserting,ok⟩ := bindSource ok
  cases ok
  have besideDeleted := @Store.deleteBeside s id (unplanned id planned existing)
    (fun o selected => by simpa using (Bool.and_eq_true_iff.mp selected).1)
  obtain ⟨besideUpdated,updates,-⟩ := Store.updatesSource updating
  obtain ⟨besideInserted,inserts,ends⟩ := Store.insertsSource inserting
  have here := updatedEnd lists distinct within (fun _ => unplannedSlot lists) updating
  refine ⟨besideDeleted.trans (besideUpdated.trans besideInserted),fun p source => ?_,fun x => ?_⟩
  · cases row : rowAt existing p.startsAt with
    | none => exact inserts p (List.mem_filter.mpr ⟨source,by rw [row]; rfl⟩)
    | some o =>
      by_cases same : some o.endsAt = p.endsAt
      · exact ⟨o.endsAt,same.symm⟩
      · exact updates (o.id,p.endsAt) (List.mem_filterMap.mpr ⟨p,source,by rw [endOf,row]; exact if_neg same⟩)
  · rw [ends,here,insertedAt lists within]
    by_cases scope : inScope scopeFrom x = true
    · rw [if_pos scope,if_pos scope]
      cases found : s.slot id x with
      | none =>
        -- Where there is no row, what is planned is inserted.
        rw [if_pos ⟨scope,rfl⟩,Option.bind_none,Option.none_or,plannedEnd]
      | some o => rw [if_neg (fun free => by cases free.2),Option.bind_some,Option.bind_none,Option.or_none]
    · rw [if_neg scope,if_neg scope,if_neg (fun free => scope free.1),Option.bind_none,Option.or_none]

def firsts : List PlannedOccurrence → List PlannedOccurrence
  | [] => []
  | p :: rest => p :: (firsts rest).filter (fun q => q.startsAt ≠ p.startsAt)

section
variable {s next : Store} {id : CalendarEventId} {scopeFrom : Option Instant} {x : Instant} {counts : ReconcileCounts}
  {planned : List PlannedOccurrence} {existing : List EventOccurrence} {p : PlannedOccurrence}

theorem firstsSubset (mem : p ∈ firsts planned) : p ∈ planned := by
  induction planned with
  | nil => cases mem
  | cons q rest ih =>
    rcases List.mem_cons.mp mem with rfl | later
    · exact List.mem_cons_self
    · exact List.mem_cons_of_mem q (ih (List.mem_of_mem_filter later))

theorem firstsStarts : x ∈ (firsts planned).map PlannedOccurrence.startsAt ↔
    x ∈ planned.map PlannedOccurrence.startsAt := by
  induction planned with
  | nil => rfl
  | cons p rest ih =>
    simp only [firsts,List.map_cons,List.mem_cons,← ih,List.mem_map,List.mem_filter,decide_eq_true_eq]
    by_cases here : x = p.startsAt
    · simp [here]
    · refine or_congr_right ⟨?_,?_⟩
      · rintro ⟨q,⟨mem,-⟩,is⟩
        exact ⟨q,mem,is⟩
      · rintro ⟨q,mem,is⟩
        exact ⟨q,⟨mem,is ▸ here⟩,is⟩

theorem firstsDistinct : ((firsts planned).map PlannedOccurrence.startsAt).Nodup := by
  induction planned with
  | nil => exact List.nodup_nil
  | cons p rest ih =>
    refine List.nodup_cons.mpr ⟨fun mem => ?_,ih.sublist (List.filter_sublist.map _)⟩
    obtain ⟨q,there,same⟩ := List.mem_map.mp mem
    exact absurd same (by simpa using (List.mem_filter.mp there).2)

theorem firstsEnd : plannedEnd (firsts planned) x = plannedEnd planned x := by
  refine congrArg (fun found => Option.bind found PlannedOccurrence.endsAt) ?_
  induction planned with
  | nil => rfl
  | cons p rest ih =>
    rw [firsts,List.find?_cons,List.find?_cons]
    by_cases here : p.startsAt = x
    · simp [here]
    · simp only [here,decide_false,← ih,List.find?_filter]
      refine List.find?_congr (fun q mem => ?_)
      by_cases same : q.startsAt = x
      · simp [same,Ne.symm here]
      · simp [same]

theorem matchSeen {done : Matching} (seen : p.startsAt ∈ done.plannedStarts) : matchNext existing done p = done := if_pos seen

theorem matchStarts {done : Matching} : (matchNext existing done p).plannedStarts =
    if p.startsAt ∈ done.plannedStarts then done.plannedStarts else done.plannedStarts ++ [p.startsAt] := by
  unfold matchNext
  split
  · rfl
  · cases rowAt existing p.startsAt with
    | none => rfl
    | some row =>
      simp only
      split <;> rfl

theorem matchSkips {done : Matching} (seen : x ∈ done.plannedStarts) : planned.foldl (matchNext existing) done =
    (planned.filter (fun p => p.startsAt ≠ x)).foldl (matchNext existing) done := by
  induction planned generalizing done with
  | nil => rfl
  | cons p rest ih =>
    by_cases here : p.startsAt = x
    · rw [List.foldl_cons,matchSeen (here ▸ seen),List.filter_cons_of_neg (by simpa using here)]
      exact ih seen
    · rw [List.filter_cons_of_pos (by simpa using here),List.foldl_cons,List.foldl_cons]
      refine ih ?_
      rw [matchStarts]
      split
      · exact seen
      · exact List.mem_append_left _ seen

theorem matchFirsts (done : Matching) : planned.foldl (matchNext existing) done =
    (firsts planned).foldl (matchNext existing) done := by
  induction planned generalizing done with
  | nil => rfl
  | cons p rest ih =>
    rw [firsts,List.foldl_cons,List.foldl_cons,ih]
    refine matchSkips ?_
    rw [matchStarts]
    split
    · assumption
    · exact List.mem_append_right _ (List.mem_singleton.mpr rfl)

theorem reconcileFirsts : reconcile planned existing = reconcile (firsts planned) existing := by
  have same : matchAll planned existing = matchAll (firsts planned) existing := matchFirsts ⟨[],[],[]⟩
  simp only [reconcile,same]

structure Applied (id : CalendarEventId) (scopeFrom : Option Instant) (planned : List PlannedOccurrence) (s next : Store) :
    Prop where
  beside : Store.Beside id s next
  outside : ∀ x, inScope scopeFrom x = false → next.slot id x = s.slot id x
  dropped : ∀ x, inScope scopeFrom x = true → x ∉ planned.map PlannedOccurrence.startsAt → next.slot id x = none
  ends : ∀ x ∈ planned.map PlannedOccurrence.startsAt, ∃ o, next.slot id x = some o ∧ plannedEnd planned x = some o.endsAt
  held : ∀ x ∈ planned.map PlannedOccurrence.startsAt, ∀ old, s.slot id x = some old →
    next.markAt id x = some (old.id,old.cancelledAt)
  fresh : ∀ x ∈ planned.map PlannedOccurrence.startsAt, s.slot id x = none → ∀ o, next.slot id x = some o →
    o.cancelledAt = none ∧ ∀ old ∈ s.occurrences.rows, old.id ≠ o.id

/- What is deleted is not planned, so that a planned start keeps its mark. -/
theorem deletedMark (lists : Lists s id scopeFrom existing)
    (spared : inScope scopeFrom x = true → x ∈ planned.map PlannedOccurrence.startsAt) :
    (s.deleteOccurrences (unplanned id (firsts planned) existing)).markAt id x = s.markAt id x := by
  rw [Store.markAt,unplannedSlot lists,if_neg (fun both => both.2 (firstsStarts.mpr (spared both.1)))]
  rfl

theorem plannedRow (within : ∀ p ∈ firsts planned, inScope scopeFrom p.startsAt = true)
    (given : ∀ p ∈ firsts planned, ∃ endsAt, p.endsAt = some endsAt)
    (ends : ∀ x, next.endAt id x = if inScope scopeFrom x then plannedEnd (firsts planned) x else s.endAt id x)
    (mem : x ∈ planned.map PlannedOccurrence.startsAt) :
    ∃ o, next.slot id x = some o ∧ plannedEnd planned x = some o.endsAt := by
  obtain ⟨p,source,rfl⟩ := List.mem_map.mp (firstsStarts.mpr mem)
  obtain ⟨e,is⟩ := given p source
  have here := ends p.startsAt
  rw [if_pos (within p source),firstsEnd] at here
  have end_ : plannedEnd planned p.startsAt = some e := by rw [← firstsEnd,plannedEndOf firstsDistinct source,is]
  rw [end_] at here
  obtain ⟨o,slot,rfl⟩ := Option.map_eq_some_iff.mp here
  exact ⟨o,slot,end_⟩

theorem outsideSlot (ends : next.endAt id x = s.endAt id x)
    (hold : ∀ old, s.slot id x = some old → next.markAt id x = some (old.id,old.cancelledAt)) :
    next.slot id x = s.slot id x := by
  refine Store.slotSame ends ?_
  cases found : s.slot id x with
  | none =>
    have gone := Store.slotNone (ends.trans (by rw [Store.endAt,found]; rfl))
    rw [Store.markAt,Store.markAt,found,gone]
  | some old =>
    rw [hold old found,Store.markAt,found]
    rfl

theorem applied (lists : Lists s id scopeFrom existing) (within : ∀ p ∈ planned, inScope scopeFrom p.startsAt = true)
    (ok : s.applyPlan id (reconcile planned existing) = .ok (counts,next)) : Applied id scopeFrom planned s next := by
  rw [reconcileFirsts] at ok
  have inside : ∀ p ∈ firsts planned, inScope scopeFrom p.startsAt = true := fun p mem => within p (firstsSubset mem)
  obtain ⟨beside,given,ends⟩ := reconciled lists firstsDistinct inside ok
  have plan := @matchAllIs (firsts planned) existing firstsDistinct
  simp only [Store.applyPlan,reconcile,plan] at ok
  obtain ⟨updated,updating,ok⟩ := bindSource ok
  obtain ⟨inserted,inserting,ok⟩ := bindSource ok
  cases ok
  obtain ⟨marks,issued⟩ := Store.updatesMark updating
  obtain ⟨held,fresh,-⟩ := Store.insertsInserted inserting
  have kept : ∀ x, (inScope scopeFrom x = true → x ∈ planned.map PlannedOccurrence.startsAt) →
      updated.markAt id x = s.markAt id x := fun x spared => (marks x).trans (deletedMark lists spared)
  have hold : ∀ x, (inScope scopeFrom x = true → x ∈ planned.map PlannedOccurrence.startsAt) → ∀ old,
      s.slot id x = some old → next.markAt id x = some (old.id,old.cancelledAt) := by
    intro x spared old found
    have there := kept x spared
    rw [Store.markAt,Store.markAt,found] at there
    obtain ⟨o,slot,is⟩ := Option.map_eq_some_iff.mp there
    rw [Store.markAt,held x o slot]
    exact congrArg some is
  refine ⟨beside,fun x out => ?_,fun x at_ apart => ?_,fun x mem => plannedRow inside given ends mem,
    fun x mem => hold x (fun _ => mem),fun x mem none_ o found => ?_⟩
  · exact outsideSlot ((ends x).trans (if_neg (by rw [out]; exact Bool.false_ne_true)))
      (hold x (fun at_ => by rw [out] at at_; cases at_))
  · refine Store.slotNone ((ends x).trans ?_)
    rw [if_pos at_,firstsEnd,plannedEndNone apart]
  · have gone : updated.slot id x = none := by
      have there := kept x (fun _ => mem)
      rw [Store.markAt,Store.markAt,none_] at there
      exact Option.map_eq_none_iff.mp there
    obtain ⟨later,blank⟩ := fresh x o gone found
    refine ⟨blank,fun old source same => ?_⟩
    have earlier := s.occurrences.drawn old source
    rw [issued] at later
    exact absurd (same ▸ earlier) (not_lt.mpr later)

theorem reconcileAgain {again : List EventOccurrence} (within : ∀ p ∈ planned, inScope scopeFrom p.startsAt = true)
    (done : Applied id scopeFrom planned s next) (lists : Lists next id scopeFrom again) :
    reconcile planned again = ⟨[],[],[]⟩ := by
  rw [reconcileFirsts]
  have plan := @matchAllIs (firsts planned) again firstsDistinct
  have row : ∀ p ∈ firsts planned, ∃ o, rowAt again p.startsAt = some o ∧ p.endsAt = some o.endsAt := by
    intro p mem
    obtain ⟨o,slot,is⟩ := done.ends p.startsAt (List.mem_map_of_mem (firstsSubset mem))
    refine ⟨o,by rw [rowAtSlot lists,if_pos (within p (firstsSubset mem)),slot],?_⟩
    rw [← is,← firstsEnd,plannedEndOf firstsDistinct mem]
  simp only [reconcile,plan,ReconcilePlan.mk.injEq]
  refine ⟨List.filter_eq_nil_iff.mpr (fun p mem => ?_),List.filterMap_eq_nil_iff.mpr (fun p mem => ?_),
    List.map_eq_nil_iff.mpr (List.filter_eq_nil_iff.mpr (fun o mem => ?_))⟩
  · obtain ⟨o,is,-⟩ := row p mem
    simp [is]
  · obtain ⟨o,is,same⟩ := row p mem
    simp [endOf,is,same]
  · obtain ⟨slot,at_⟩ := (lists o).mp mem
    simp only [decide_eq_true_eq,not_not,firstsStarts]
    by_contra apart
    rw [done.dropped o.startsAt at_ apart] at slot
    cases slot

theorem applyRuns (lists : Lists s id scopeFrom existing) (within : ∀ p ∈ planned, inScope scopeFrom p.startsAt = true)
    (there : (s.events.find id).isSome) (permitted : ∀ p ∈ planned, ∃ e, p.endsAt = some e ∧ p.startsAt ≤ e) :
    ∃ counts next, s.applyPlan id (reconcile planned existing) = .ok (counts,next) := by
  rw [reconcileFirsts]
  have plan := @matchAllIs (firsts planned) existing firstsDistinct
  have inside : ∀ p ∈ firsts planned, inScope scopeFrom p.startsAt = true := fun p mem => within p (firstsSubset mem)
  obtain ⟨updated,updating⟩ := @Store.updatesRun (s.deleteOccurrences (unplanned id (firsts planned) existing)) id
    ((firsts planned).filterMap (endOf existing)) (fun u mem => by
      obtain ⟨p,source,row,slot,-,rfl⟩ := endOfSource lists inside mem
      obtain ⟨e,given,later⟩ := permitted p (firstsSubset source)
      refine ⟨e,given,fun o mem same => ?_⟩
      have one := Table.equalOfKey (List.mem_of_mem_filter mem) (Store.slotOwn slot).1 same
      rwa [one,(Store.slotOwn slot).2.2])
  obtain ⟨beside,-⟩ := Store.updatesSource updating
  obtain ⟨inserted,inserting⟩ := @Store.insertsRun updated id
    ((firsts planned).filter (fun p => (rowAt existing p.startsAt).isNone)) (by rw [beside.events]; exact there)
    (fun p mem => permitted p (firstsSubset (List.mem_of_mem_filter mem)))
  simp only [Store.applyPlan,reconcile,plan]
  change ∃ counts next, (((firsts planned).filterMap (endOf existing)).foldlM (fun s update => s.updateEnd id update)
    (s.deleteOccurrences (unplanned id (firsts planned) existing)) >>= _) = _
  rw [updating]
  change ∃ counts next, (((firsts planned).filter (fun p => (rowAt existing p.startsAt).isNone)).foldlM
    (fun s p => s.insertPlanned id p) updated >>= _) = _
  rw [inserting]
  exact ⟨_,_,rfl⟩

end
end FamilyPlatform.Calendar
