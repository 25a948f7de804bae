import Mathlib.Data.List.Induction
import FamilyPlatform.Kernel.Candidates
import FamilyPlatform.Calendar.Queries

/-! What a read of a range leaves in the audit log: one row for an event and a child that it
reached, and one for an excluded event and a member who hid it. -/
namespace FamilyPlatform.Calendar
open ZonedTime Recurrence

theorem memAddMembers {members more : List FamilyMemberId} {m : FamilyMemberId} :
    m ∈ addMembers members more ↔ m ∈ members ∨ m ∈ more := by
  induction more generalizing members with
  | nil => simp [addMembers]
  | cons x rest ih =>
    have next : addMembers members (x :: rest) = addMembers (if x ∈ members then members else members ++ [x]) rest := rfl
    rw [next,ih,List.mem_cons]
    split
    · rename_i there
      constructor
      · exact Or.imp_right .inr
      · rintro (old | rfl | new)
        · exact .inl old
        · exact .inl there
        · exact .inr new
    · rw [List.mem_append,List.mem_singleton,or_assoc]

theorem addMembersNodup {members more : List FamilyMemberId} (distinct : members.Nodup) :
    (addMembers members more).Nodup := by
  induction more generalizing members with
  | nil => exact distinct
  | cons x rest ih =>
    refine @ih (if x ∈ members then members else members ++ [x]) ?_
    split
    · exact distinct
    · rename_i fresh
      refine List.nodup_append.mpr ⟨distinct,List.nodup_singleton x,fun a left b right same => fresh ?_⟩
      rwa [← List.mem_singleton.mp right,← same]

theorem lookupSource {entries : Grouped} {key : CalendarEventId} {members : List FamilyMemberId}
    (found : entries.lookup key = some members) : (key,members) ∈ entries := by
  induction entries with
  | nil => cases found
  | cons e rest ih =>
    rw [List.lookup_cons] at found
    split at found
    · rename_i same
      cases found
      rw [beq_iff_eq] at same
      exact same ▸ List.mem_cons_self
    · exact List.mem_cons_of_mem e (ih found)

theorem lookupAbsent {entries : Grouped} {key : CalendarEventId} (absent : entries.lookup key = none) :
    ∀ e ∈ entries, e.1 ≠ key := by
  intro e mem same
  have := List.lookup_eq_none_iff.mp absent e mem
  simp [same] at this

structure GroupedBy (rows : List (CalendarEventId × List FamilyMemberId)) (grouped : Grouped) : Prop where
  events : (grouped.map Prod.fst).Nodup
  members : ∀ e ∈ grouped, e.2.Nodup
  exact : ∀ key m, (∃ e ∈ grouped, e.1 = key ∧ m ∈ e.2) ↔ ∃ row ∈ rows, row.1 = key ∧ m ∈ row.2

theorem groupNextBy {rows : List (CalendarEventId × List FamilyMemberId)} {grouped : Grouped}
    (by_ : GroupedBy rows grouped) (row : CalendarEventId × List FamilyMemberId) :
    GroupedBy (rows ++ [row]) (groupNext grouped row) := by
  obtain ⟨key,more⟩ := row
  obtain ⟨old,isOld⟩ : ∃ old, (grouped.lookup key).getD [] = old := ⟨_,rfl⟩
  -- Of the key there is one entry, or none.
  have before : old.Nodup ∧ ∀ m, m ∈ old ↔ ∃ e ∈ grouped, e.1 = key ∧ m ∈ e.2 := by
    cases found : grouped.lookup key with
    | none =>
      rw [found] at isOld
      subst isOld
      refine ⟨List.nodup_nil,fun m => ⟨by simp,?_⟩⟩
      rintro ⟨e,mem,same,-⟩
      exact absurd same (lookupAbsent found e mem)
    | some members =>
      rw [found] at isOld
      obtain rfl : members = old := isOld
      have there := lookupSource found
      refine ⟨by_.members _ there,fun m => ⟨fun mem => ⟨_,there,rfl,mem⟩,?_⟩⟩
      rintro ⟨e,mem,same,inside⟩
      have one := List.inj_on_of_nodup_map by_.events mem there same
      rwa [one] at inside
  have entries : ∀ e, e ∈ groupNext grouped (key,more) ↔ e = (key,addMembers old more) ∨ (e ∈ grouped ∧ e.1 ≠ key) := by
    intro e
    rw [groupNext,isOld]
    exact memSetEntry by_.events
  refine ⟨setEntryNodup by_.events,fun e mem => ?_,fun k m => ?_⟩
  · rcases (entries e).mp mem with rfl | ⟨there,-⟩
    · exact addMembersNodup before.1
    · exact by_.members e there
  · have left : (∃ e ∈ groupNext grouped (key,more), e.1 = k ∧ m ∈ e.2) ↔
        (∃ e ∈ grouped, e.1 = k ∧ m ∈ e.2) ∨ (key = k ∧ m ∈ more) := by
      constructor
      · rintro ⟨e,mem,same,inside⟩
        rcases (entries e).mp mem with rfl | ⟨there,-⟩
        · rcases memAddMembers.mp inside with earlier | new
          · obtain ⟨e,there,atKey,inside⟩ := (before.2 m).mp earlier
            exact .inl ⟨e,there,atKey.trans same,inside⟩
          · exact .inr ⟨same,new⟩
        · exact .inl ⟨e,there,same,inside⟩
      · rintro (⟨e,there,same,inside⟩ | ⟨rfl,new⟩)
        · by_cases own : e.1 = key
          · exact ⟨_,(entries _).mpr (.inl rfl),own.symm.trans same,
              memAddMembers.mpr (.inl ((before.2 m).mpr ⟨e,there,own,inside⟩))⟩
          · exact ⟨e,(entries e).mpr (.inr ⟨there,own⟩),same,inside⟩
        · exact ⟨_,(entries _).mpr (.inl rfl),rfl,memAddMembers.mpr (.inr new)⟩
    rw [left,by_.exact]
    simp only [List.mem_append,List.mem_singleton,or_and_right,exists_or,exists_eq_left]

theorem groupedBy (rows : List (CalendarEventId × List FamilyMemberId)) : GroupedBy rows (groupByEvent rows) := by
  induction rows using List.reverseRecOn with
  | nil => exact ⟨List.nodup_nil,by simp [groupByEvent],by simp [groupByEvent]⟩
  | append_singleton rows row ih =>
    rw [groupByEvent,List.foldl_append]
    exact groupNextBy ih row

def pairsOf (grouped : Grouped) : List (CalendarEventId × FamilyMemberId) :=
  grouped.flatMap (fun e => e.2.map (fun m => (e.1, m)))

theorem memPairs {grouped : Grouped} {key : CalendarEventId} {m : FamilyMemberId} :
    (key,m) ∈ pairsOf grouped ↔ ∃ e ∈ grouped, e.1 = key ∧ m ∈ e.2 := by
  simp only [pairsOf,List.mem_flatMap,List.mem_map,Prod.mk.injEq]
  constructor
  · rintro ⟨e,mem,_,inside,same,rfl⟩
    exact ⟨e,mem,same,inside⟩
  · rintro ⟨e,mem,same,inside⟩
    exact ⟨e,mem,m,inside,same,rfl⟩

theorem pairsNodup {rows : List (CalendarEventId × List FamilyMemberId)} {grouped : Grouped}
    (by_ : GroupedBy rows grouped) : (pairsOf grouped).Nodup := by
  refine List.nodup_flatMap.mpr ⟨fun e mem => (by_.members e mem).map (fun a b same => (Prod.mk.inj same).2),?_⟩
  refine (List.pairwise_map.mp by_.events).imp (fun {a b} apart => ?_)
  simp only [Function.onFun,List.disjoint_left,List.mem_map]
  rintro _ ⟨m,-,rfl⟩ ⟨n,-,same⟩
  exact apart (Prod.mk.inj same).1.symm

theorem auditGroupedRows (s : Store) (reader : Reader) (grouped : Grouped) (result : AuditResult) :
    (auditGrouped s reader grouped result).audit =
      s.audit ++ (pairsOf grouped).map (fun pair => auditEntry reader pair.1 .calendarRange result pair.2) := by
  induction grouped generalizing s with
  | nil => simp [auditGrouped,pairsOf]
  | cons e rest ih =>
    have next : auditGrouped s reader (e :: rest) result =
        auditGrouped (s.auditChildParticipation reader e.1 e.2 .calendarRange result) reader rest result := rfl
    rw [next,ih]
    simp [pairsOf,Store.auditChildParticipation,Function.comp_def]

/-- The rows that a read of the range appends: one for each event of the result and each
child who takes part in it and whom the reader guards, and one for each event of the family with
an occurrence in the range and each participant of it who is hidden from the reader. -/
def Recorded (s next : Store) (r : Request) (q : RangeQuery) (views : List OccurrenceView) : Prop :=
  ∃ granted denied : List (CalendarEventId × FamilyMemberId),
    next.audit = s.audit ++ granted.map (fun pair => auditEntry r.reader pair.1 .calendarRange .granted pair.2) ++
      denied.map (fun pair => auditEntry r.reader pair.1 .calendarRange .denied pair.2) ∧
    granted.Nodup ∧ denied.Nodup ∧
    (∀ eventId m, (eventId,m) ∈ granted ↔ (∃ view ∈ views, view.eventId = eventId) ∧ m ∈ s.participantsOf eventId ∧
      m ∈ r.visibility.guardedChildren) ∧
    ∀ eventId m, (eventId,m) ∈ denied ↔ (∃ row ∈ s.events.rows, row.id = eventId) ∧ m ∈ s.participantsOf eventId ∧
      m ∉ r.visibility.visible ∧ ∃ o ∈ s.occurrences.rows, o.eventId = eventId ∧ q.overlaps o = true

theorem memParticipants {s : Store} {eventId : CalendarEventId} {m : FamilyMemberId} :
    m ∈ s.participantsOf eventId ↔ ∃ p ∈ s.participants.rows, p.eventId = eventId ∧ p.memberId = m := by
  simp only [Store.participantsOf,List.mem_map,List.mem_insertionSort,List.mem_filter,decide_eq_true_eq,and_assoc]

theorem selectsSource {s : Store} {q : RangeQuery} {o : EventOccurrence} : s.selects q o = true ↔
    q.overlaps o = true ∧ ∀ m ∈ s.participantsOf o.eventId, m ∈ q.visibleMemberIds := by
  simp only [Store.selects,Bool.and_eq_true,Bool.not_eq_true',List.any_eq_false,RangeQuery.hides,decide_eq_true_eq,
    not_and,not_not,memParticipants,forall_exists_index,and_imp]
  exact and_congr_right (fun _ => ⟨fun all m p mem own is => is ▸ all p mem own,fun all p mem own => all _ p mem own rfl⟩)

theorem viewSource {intl : Intl} {o : EventOccurrence} {row : EventRow} {participants : List FamilyMemberId}
    {view : OccurrenceView} (ok : viewOf intl o row participants = .ok view) :
    view.eventId = o.eventId ∧ view.participants = participants := by
  obtain ⟨⟨_,_⟩,-,ok⟩ := bindSource ok
  cases ok
  exact ⟨rfl,rfl⟩

theorem visibleSource {intl : Intl} {s : Store} {q : RangeQuery} {views : List OccurrenceView}
    (ok : s.listVisibleInRange intl q = .ok views) :
    ∀ view ∈ views, view.participants = s.participantsOf view.eventId := by
  intro view mem
  obtain ⟨⟨o,row⟩,-,viewed⟩ := (mapMSource ok).mp mem
  obtain ⟨event,participants⟩ := viewSource viewed
  rw [participants,event]

theorem memHidden {s : Store} {q : RangeQuery} {eventId : CalendarEventId} {m : FamilyMemberId} :
    (eventId,m) ∈ s.listHiddenParticipationsInRange q ↔ m ∈ s.participantsOf eventId ∧ m ∉ q.visibleMemberIds ∧
      ∃ o ∈ s.occurrences.rows, o.eventId = eventId ∧ q.overlaps o = true := by
  simp only [Store.listHiddenParticipationsInRange,List.mem_map,List.mem_insertionSort,List.mem_filter,Bool.and_eq_true,
    RangeQuery.hides,decide_eq_true_eq,List.any_eq_true,memParticipants]
  constructor
  · rintro ⟨p,⟨mem,hidden,overlapping⟩,same⟩
    obtain ⟨rfl,rfl⟩ := Prod.mk.inj same
    exact ⟨⟨p,mem,rfl,rfl⟩,hidden,overlapping⟩
  · rintro ⟨⟨p,mem,rfl,rfl⟩,hidden,overlapping⟩
    exact ⟨p,⟨mem,hidden,overlapping⟩,rfl⟩

theorem rangeRecorded {intl : Intl} {s next : Store} {r : Request} {start stop : Option Instant}
    {views : List OccurrenceView} (ok : listOccurrences intl s r start stop = .ok (.ok views, next)) :
    ∃ from_ to_, checkRange start stop = .ok (from_,to_) ∧
      Recorded s next r ⟨from_,to_,r.visibility.visible⟩ views := by
  unfold listOccurrences at ok
  split at ok
  · cases ok
  rename_i from_ to_ checked
  obtain ⟨visible,listed,ok⟩ := bindSource ok
  cases ok
  refine ⟨from_,to_,checked,?_⟩
  generalize is : (⟨from_,to_,r.visibility.visible⟩ : RangeQuery) = q at listed ⊢
  have reached := groupedBy (views.map (fun view =>
    (view.eventId, guardedChildParticipants view.participants r.visibility)))
  have excluded := groupedBy ((s.listHiddenParticipationsInRange q).map (fun pair => (pair.1, [pair.2])))
  refine ⟨_,_,?_,pairsNodup reached,pairsNodup excluded,fun eventId m => ?_,fun eventId m => ?_⟩
  · rw [auditGroupedRows,auditGroupedRows]
  · rw [memPairs,reached.exact]
    simp only [List.mem_map,exists_exists_and_eq_and,guardedChildParticipants,List.mem_filter,decide_eq_true_eq]
    constructor
    · rintro ⟨view,mem,rfl,inside,guarded⟩
      exact ⟨⟨view,mem,rfl⟩,visibleSource listed view mem ▸ inside,guarded⟩
    · rintro ⟨⟨view,mem,rfl⟩,inside,guarded⟩
      exact ⟨view,mem,rfl,(visibleSource listed view mem).symm ▸ inside,guarded⟩
  · rw [memPairs,excluded.exact]
    simp only [List.mem_map,exists_exists_and_eq_and,List.mem_singleton]
    have visible : q.visibleMemberIds = r.visibility.visible := by rw [← is]
    rw [← visible]
    constructor
    · rintro ⟨⟨event,member⟩,mem,rfl,rfl⟩
      obtain ⟨inside,hidden,o,there,own,overlapping⟩ := memHidden.mp mem
      obtain ⟨row,found⟩ := Option.isSome_iff_exists.mp (s.owned o there)
      have source := Table.findSource found
      exact ⟨⟨row,source.1,source.2.trans own⟩,inside,hidden,o,there,own,overlapping⟩
    · rintro ⟨-,inside,hidden,overlapping⟩
      exact ⟨(eventId,m),memHidden.mpr ⟨inside,hidden,overlapping⟩,rfl,rfl⟩

end FamilyPlatform.Calendar
