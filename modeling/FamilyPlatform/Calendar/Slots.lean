import FamilyPlatform.Calendar.Store

/-! The occurrences of an event by their starts. What the statements of a reconcile leave in a slot is the row that
was there, with another end, or a new one. -/
namespace FamilyPlatform.Calendar
open ZonedTime

theorem orThrowSource {α : Type} {thrown : Thrown} {x : Option α} {a : α} (ok : orThrow thrown x = .ok a) :
    x = some a := by
  cases x <;> cases ok
  rfl

namespace Occurrences

def slot (t : Occurrences) (id : CalendarEventId) (x : Instant) : Option EventOccurrence :=
  t.rows.find? (fun o => o.eventId = id && o.startsAt = x)

section
variable {t : Occurrences} {id other : CalendarEventId} {x startsAt endsAt : Instant} {o : EventOccurrence}

theorem slotSource : t.slot id x = some o ↔ o ∈ t.rows ∧ o.eventId = id ∧ o.startsAt = x := by
  constructor
  · intro found
    have here := List.find?_some found
    simp only [Bool.and_eq_true,decide_eq_true_eq] at here
    exact ⟨List.mem_of_find?_eq_some found,here⟩
  · rintro ⟨mem,own,start⟩
    cases found : t.slot id x with
    | none =>
      have absent := List.find?_eq_none.mp found o mem
      simp [own,start] at absent
    | some first =>
      have here := List.find?_some found
      simp only [Bool.and_eq_true,decide_eq_true_eq] at here
      have one := List.inj_on_of_nodup_map t.slots (List.mem_of_find?_eq_some found) mem
        (Prod.ext (here.1.trans own.symm) (here.2.trans start.symm))
      rw [one]

theorem slotDelete (p : EventOccurrence → Bool) :
    (t.deleteWhere p).slot id x = (t.slot id x).filter (fun o => !p o) := by
  refine Option.ext (fun o => ?_)
  rw [slotSource,Option.filter_eq_some_iff,slotSource]
  simp only [deleteWhere,Table.deleteWhere,List.mem_filter]
  tauto

theorem slotUpdate (p : EventOccurrence → Bool) (f : EventOccurrence → EventOccurrence) (keeps : Rewrites f) :
    (t.updateWhere p f keeps).slot id x = (t.slot id x).map (fun o => if p o then f o else o) := by
  have same : ((fun o : EventOccurrence => decide (o.eventId = id) && decide (o.startsAt = x)) ∘
      fun o => if p o then f o else o) = fun o => decide (o.eventId = id) && decide (o.startsAt = x) := by
    funext o
    simp only [Function.comp]
    split
    · rw [(keeps o).2.1,(keeps o).2.2]
    · rfl
  unfold slot updateWhere Table.updateWhere
  rw [List.find?_map,same]

theorem slotInsert : (t.insertOrSkip id startsAt endsAt).slot other x = (t.slot other x).or
    (if id = other ∧ startsAt = x then some ⟨t.issued,id,startsAt,endsAt,none⟩ else none) := by
  unfold insertOrSkip
  split
  · unfold slot
    rw [List.find?_append,List.find?_singleton]
    simp
  · rename_i taken
    simp only [not_forall,not_not,Prod.mk.injEq] at taken
    obtain ⟨o,mem,own,start⟩ := taken
    split
    · rename_i here
      obtain ⟨rfl,rfl⟩ := here
      rw [slotSource.mpr ⟨mem,own,start⟩]
      rfl
    · rw [Option.or_none]

end
end Occurrences

namespace Store

def slot (s : Store) (id : CalendarEventId) (x : Instant) : Option EventOccurrence := s.occurrences.slot id x

def endAt (s : Store) (id : CalendarEventId) (x : Instant) : Option Instant := (s.slot id x).map EventOccurrence.endsAt

def markAt (s : Store) (id : CalendarEventId) (x : Instant) : Option (EventOccurrenceId × Option Instant) :=
  (s.slot id x).map (fun o => (o.id,o.cancelledAt))

structure Beside (id : CalendarEventId) (s next : Store) : Prop where
  events : next.events = s.events
  participants : next.participants = s.participants
  others : ∀ other x, other ≠ id → next.slot other x = s.slot other x

section
variable {s mid next : Store} {id : CalendarEventId} {x : Instant} {o : EventOccurrence}

theorem Beside.refl : Beside id s s := ⟨rfl,rfl,fun _ _ _ => rfl⟩

theorem Beside.trans (first : Beside id s mid) (second : Beside id mid next) : Beside id s next :=
  ⟨second.events.trans first.events,second.participants.trans first.participants,
    fun other x apart => (second.others other x apart).trans (first.others other x apart)⟩

theorem slotOwn (found : s.slot id x = some o) : o ∈ s.occurrences.rows ∧ o.eventId = id ∧ o.startsAt = x :=
  Occurrences.slotSource.mp found

theorem deleteSlot (p : EventOccurrence → Bool) :
    (s.deleteOccurrences p).slot id x = (s.slot id x).filter (fun o => !p o) := Occurrences.slotDelete p

theorem deleteBeside {p : EventOccurrence → Bool} (own : ∀ o, p o = true → o.eventId = id) :
    Beside id s (s.deleteOccurrences p) := by
  refine ⟨rfl,rfl,fun other x apart => ?_⟩
  rw [deleteSlot]
  cases found : s.slot other x with
  | none => rfl
  | some o =>
    have spared : p o = false := by
      by_contra selected
      exact apart ((slotOwn found).2.1.symm.trans (own o (by simpa using selected)))
    simp [Option.filter,spared]

theorem updateSlot (p : EventOccurrence → Bool) (f : EventOccurrence → EventOccurrence) (keeps : Occurrences.Rewrites f) :
    (s.updateOccurrences p f keeps).slot id x = (s.slot id x).map (fun o => if p o then f o else o) :=
  Occurrences.slotUpdate p f keeps

theorem updateEndSource {update : EventOccurrenceId × Option Instant} (ok : s.updateEnd id update = .ok next) :
    Beside id s next ∧ ∃ endsAt, update.2 = some endsAt ∧ ∀ x, next.slot id x =
      (s.slot id x).map (fun o => if o.id = update.1 then { o with endsAt := endsAt } else o) := by
  obtain ⟨endsAt,given,ok⟩ := bindSource ok
  have some_ := orThrowSource given
  simp only [bind,Except.bind,pure,Except.pure] at ok
  split at ok
  · cases ok
  cases ok
  refine ⟨⟨rfl,rfl,fun other x apart => ?_⟩,endsAt,some_,fun x => ?_⟩
  · refine (updateSlot _ (fun o => { o with endsAt := endsAt }) (fun _ => ⟨rfl,rfl,rfl⟩)).trans ?_
    cases found : s.slot other x with
    | none => rfl
    | some o =>
      obtain ⟨-,rfl,-⟩ := slotOwn found
      simp [apart]
  · refine (updateSlot _ (fun o => { o with endsAt := endsAt }) (fun _ => ⟨rfl,rfl,rfl⟩)).trans ?_
    cases found : s.slot id x with
    | none => rfl
    | some o =>
      obtain ⟨-,rfl,-⟩ := slotOwn found
      simp

theorem insertPlannedSource {p : PlannedOccurrence} (ok : s.insertPlanned id p = .ok next) : Beside id s next ∧
    (∃ endsAt, p.endsAt = some endsAt) ∧
      ∀ x, next.endAt id x = (s.endAt id x).or (if p.startsAt = x then p.endsAt else none) := by
  obtain ⟨endsAt,given,ok⟩ := bindSource ok
  have some_ := orThrowSource given
  obtain ⟨_,-,ok⟩ := bindSource ok
  split at ok
  · cases ok
    refine ⟨⟨rfl,rfl,fun other x apart => ?_⟩,⟨endsAt,some_⟩,fun x => ?_⟩
    · exact Occurrences.slotInsert.trans (by rw [if_neg (fun both => apart both.1.symm),Option.or_none]; rfl)
    · simp only [endAt,slot]
      rw [Occurrences.slotInsert,Option.map_or]
      congr 1
      by_cases here : p.startsAt = x
      · rw [if_pos ⟨rfl,here⟩,if_pos here,some_]
        rfl
      · rw [if_neg (fun both => here both.2),if_neg here]
        rfl
  · cases ok

theorem updatesSource {updates : List (EventOccurrenceId × Option Instant)}
    (ok : updates.foldlM (fun s update => s.updateEnd id update) s = .ok next) : Beside id s next ∧
      (∀ u ∈ updates, ∃ endsAt, u.2 = some endsAt) ∧ (∀ x, s.slot id x = none → next.slot id x = none) ∧
      ∀ x o, s.slot id x = some o → ∃ o', next.slot id x = some o' ∧ o'.id = o.id ∧
        ((o'.endsAt = o.endsAt ∧ ∀ u ∈ updates, u.1 ≠ o.id) ∨ ∃ u ∈ updates, u.1 = o.id ∧ u.2 = some o'.endsAt) := by
  induction updates generalizing s with
  | nil =>
    cases ok
    exact ⟨.refl,by simp,fun _ none_ => none_,fun x o found => ⟨o,found,rfl,.inl ⟨rfl,by simp⟩⟩⟩
  | cons u rest ih =>
    rw [List.foldlM_cons] at ok
    obtain ⟨first,updated,ok⟩ := bindSource ok
    obtain ⟨beside,endsAt,given,slots⟩ := updateEndSource updated
    obtain ⟨later,all,none_,some_⟩ := ih ok
    refine ⟨beside.trans later,fun v mem => ?_,fun x absent => none_ x (by rw [slots,absent]; rfl),fun x o found => ?_⟩
    · rcases List.mem_cons.mp mem with rfl | behind
      · exact ⟨endsAt,given⟩
      · exact all v behind
    have here : first.slot id x = some (if o.id = u.1 then { o with endsAt := endsAt } else o) := by
      rw [slots,found]
      rfl
    obtain ⟨o',last,own,ends⟩ := some_ x _ here
    by_cases addressed : o.id = u.1
    · simp only [if_pos addressed] at own ends
      refine ⟨o',last,own,.inr ?_⟩
      rcases ends with ⟨same,-⟩ | ⟨v,mem,at_,is⟩
      · exact ⟨u,List.mem_cons_self,addressed.symm,by rw [same,given]⟩
      · exact ⟨v,List.mem_cons_of_mem u mem,at_,is⟩
    · simp only [if_neg addressed] at own ends
      refine ⟨o',last,own,?_⟩
      rcases ends with ⟨same,apart⟩ | ⟨v,mem,at_,is⟩
      · refine .inl ⟨same,fun v mem => ?_⟩
        rcases List.mem_cons.mp mem with rfl | behind
        · exact Ne.symm addressed
        · exact apart v behind
      · exact .inr ⟨v,List.mem_cons_of_mem u mem,at_,is⟩

theorem insertsSource {planned : List PlannedOccurrence}
    (ok : planned.foldlM (fun s p => s.insertPlanned id p) s = .ok next) : Beside id s next ∧
      (∀ p ∈ planned, ∃ endsAt, p.endsAt = some endsAt) ∧
      ∀ x, next.endAt id x = (s.endAt id x).or ((planned.find? (fun p => p.startsAt = x)).bind PlannedOccurrence.endsAt) := by
  induction planned generalizing s with
  | nil =>
    cases ok
    exact ⟨.refl,by simp,fun x => by simp⟩
  | cons p rest ih =>
    rw [List.foldlM_cons] at ok
    obtain ⟨first,inserted,ok⟩ := bindSource ok
    obtain ⟨beside,given,ends⟩ := insertPlannedSource inserted
    obtain ⟨later,all,last⟩ := ih ok
    refine ⟨beside.trans later,fun q mem => ?_,fun x => ?_⟩
    · rcases List.mem_cons.mp mem with rfl | behind
      · exact given
      · exact all q behind
    · rw [last,ends,Option.or_assoc,List.find?_cons]
      obtain ⟨endsAt,is⟩ := given
      by_cases here : p.startsAt = x
      · simp [here,is]
      · simp [here]

theorem slotNone (none_ : s.endAt id x = none) : s.slot id x = none := Option.map_eq_none_iff.mp none_

theorem slotSame (ends : next.endAt id x = s.endAt id x) (marks : next.markAt id x = s.markAt id x) :
    next.slot id x = s.slot id x := by
  cases found : s.slot id x with
  | none =>
    rw [endAt,endAt,found] at ends
    exact slotNone ends
  | some o =>
    rw [endAt,endAt,found] at ends
    rw [markAt,markAt,found] at marks
    obtain ⟨o',found',end_⟩ := Option.map_eq_some_iff.mp ends
    rw [found'] at marks ⊢
    simp only [Option.map_some,Option.some.injEq,Prod.mk.injEq] at marks
    obtain ⟨-,own,start⟩ := slotOwn found
    obtain ⟨-,own',start'⟩ := slotOwn found'
    cases o
    cases o'
    simp_all

theorem updatesMark {updates : List (EventOccurrenceId × Option Instant)}
    (ok : updates.foldlM (fun s update => s.updateEnd id update) s = .ok next) :
    (∀ x, next.markAt id x = s.markAt id x) ∧ next.occurrences.issued = s.occurrences.issued := by
  induction updates generalizing s with
  | nil =>
    cases ok
    exact ⟨fun _ => rfl,rfl⟩
  | cons u rest ih =>
    rw [List.foldlM_cons] at ok
    obtain ⟨first,updated,ok⟩ := bindSource ok
    obtain ⟨marks,issued⟩ := ih ok
    obtain ⟨-,endsAt,-,slots⟩ := updateEndSource updated
    refine ⟨fun x => ?_,?_⟩
    · rw [marks,markAt,markAt,slots,Option.map_map]
      refine congrArg (fun f => (s.slot id x).map f) (funext (fun o => ?_))
      rw [Function.comp]
      split <;> rfl
    · rw [issued]
      obtain ⟨_,-,updated⟩ := bindSource updated
      simp only [bind,Except.bind,pure,Except.pure] at updated
      split at updated <;> cases updated
      rfl

/- A row that is there is not touched, and a new one has an identifier of its own and is not cancelled. -/
structure Inserted (id : CalendarEventId) (s next : Store) : Prop where
  held : ∀ x o, s.slot id x = some o → next.slot id x = some o
  fresh : ∀ x o, s.slot id x = none → next.slot id x = some o → s.occurrences.issued ≤ o.id ∧ o.cancelledAt = none
  issued : s.occurrences.issued ≤ next.occurrences.issued

theorem insertsInserted {planned : List PlannedOccurrence}
    (ok : planned.foldlM (fun s p => s.insertPlanned id p) s = .ok next) : Inserted id s next := by
  induction planned generalizing s with
  | nil =>
    cases ok
    exact ⟨fun _ _ found => found,fun x o none_ found => (by rw [none_] at found; cases found),le_refl _⟩
  | cons p rest ih =>
    rw [List.foldlM_cons] at ok
    obtain ⟨first,inserted,ok⟩ := bindSource ok
    obtain ⟨held,fresh,issued⟩ := ih ok
    obtain ⟨endsAt,-,inserted⟩ := bindSource inserted
    obtain ⟨_,-,inserted⟩ := bindSource inserted
    split at inserted
    swap
    · cases inserted
    cases inserted
    have slots : ∀ x, _ = ((s.slot id x).or _) := fun x =>
      @Occurrences.slotInsert s.occurrences id id x p.startsAt endsAt
    have grows : s.occurrences.issued ≤ (s.occurrences.insertOrSkip id p.startsAt endsAt).issued := by
      unfold Occurrences.insertOrSkip
      split
      · exact Nat.le_succ _
      · exact le_refl _
    refine ⟨fun x o found => held x o ((slots x).trans (by rw [found]; rfl)),fun x o none_ found => ?_,grows.trans issued⟩
    by_cases here : p.startsAt = x
    · have new := held x _ ((slots x).trans (by rw [none_,if_pos ⟨rfl,here⟩]; rfl))
      rw [new] at found
      cases found
      exact ⟨le_refl _,rfl⟩
    · obtain ⟨later,blank⟩ := fresh x o ((slots x).trans (by rw [none_,if_neg (fun both => here both.2)]; rfl)) found
      exact ⟨grows.trans later,blank⟩

theorem updatesRun {updates : List (EventOccurrenceId × Option Instant)}
    (permitted : ∀ u ∈ updates, ∃ e, u.2 = some e ∧ ∀ o ∈ s.occurrences.rows, o.id = u.1 → o.startsAt ≤ e) :
    ∃ next, updates.foldlM (fun s update => s.updateEnd id update) s = .ok next := by
  induction updates generalizing s with
  | nil => exact ⟨s,rfl⟩
  | cons u rest ih =>
    obtain ⟨e,given,later⟩ := permitted u List.mem_cons_self
    have within : ¬ s.occurrences.rows.any
        (fun o => decide (o.id = u.1) && decide (o.eventId = id) && decide (e < o.startsAt)) = true := by
      intro any
      obtain ⟨o,mem,is⟩ := List.any_eq_true.mp any
      simp only [Bool.and_eq_true,decide_eq_true_eq] at is
      exact absurd is.2 (not_lt.mpr (later o mem is.1.1))
    obtain ⟨first,updated,rows⟩ : ∃ first, s.updateEnd id u = .ok first ∧
        ∀ o ∈ first.occurrences.rows, ∃ old ∈ s.occurrences.rows, o.id = old.id ∧ o.startsAt = old.startsAt := by
      refine ⟨s.updateOccurrences (fun o => decide (o.id = u.1) && decide (o.eventId = id))
        (fun o => { o with endsAt := e }) (fun _ => ⟨rfl,rfl,rfl⟩),?_,?_⟩
      · simp only [updateEnd,given,orThrow,bind,Except.bind,pure,Except.pure]
        exact if_neg within
      · intro o mem
        obtain ⟨old,there,rfl⟩ := List.mem_map.mp mem
        refine ⟨old,there,?_⟩
        split <;> exact ⟨rfl,rfl⟩
    obtain ⟨next,ok⟩ := @ih first (fun v mem => by
      obtain ⟨e,given,later⟩ := permitted v (List.mem_cons_of_mem u mem)
      refine ⟨e,given,fun o there is => ?_⟩
      obtain ⟨old,source,same,start⟩ := rows o there
      rw [start]
      exact later old source (same ▸ is))
    exact ⟨next,by rw [List.foldlM_cons,updated]; exact ok⟩

theorem insertsRun {planned : List PlannedOccurrence} (there : (s.events.find id).isSome)
    (permitted : ∀ p ∈ planned, ∃ e, p.endsAt = some e ∧ p.startsAt ≤ e) :
    ∃ next, planned.foldlM (fun s p => s.insertPlanned id p) s = .ok next := by
  induction planned generalizing s with
  | nil => exact ⟨s,rfl⟩
  | cons p rest ih =>
    obtain ⟨e,given,later⟩ := permitted p List.mem_cons_self
    obtain ⟨first,inserted,same⟩ : ∃ first, s.insertPlanned id p = .ok first ∧ first.events = s.events := by
      cases inserted : s.insertPlanned id p with
      | ok first =>
        simp only [insertPlanned,given,orThrow,permitOccurrence,if_neg (not_lt.mpr later),dif_pos there,bind,Except.bind,
          pure,Except.pure] at inserted
        cases inserted
        exact ⟨_,rfl,rfl⟩
      | error e =>
        simp only [insertPlanned,given,orThrow,permitOccurrence,if_neg (not_lt.mpr later),dif_pos there,bind,Except.bind,
          pure,Except.pure] at inserted
        cases inserted
    obtain ⟨next,ok⟩ := @ih first (same ▸ there) (fun q mem => permitted q (List.mem_cons_of_mem p mem))
    exact ⟨next,by rw [List.foldlM_cons,inserted]; exact ok⟩

end
end Store
end FamilyPlatform.Calendar
