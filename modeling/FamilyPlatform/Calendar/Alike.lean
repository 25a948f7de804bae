import FamilyPlatform.Lib.TwoRuns
import FamilyPlatform.Calendar.Edits
import FamilyPlatform.Calendar.Queries

/-! The writes of an event from two states that hold the same of it: both do the same, or
both throw the same. -/
namespace FamilyPlatform.Calendar
open ZonedTime Recurrence TwoRuns

abbrev Any : Thrown → Prop := fun _ => True

structure Twin (id : CalendarEventId) (s s' : Store) : Prop where
  there : (s.events.find id).isSome = (s'.events.find id).isSome
  occurrences : ∀ o, o.eventId = id → (o ∈ s.occurrences.rows ↔ o ∈ s'.occurrences.rows)
  participants : ∀ m, (∃ p ∈ s.participants.rows, p.eventId = id ∧ p.memberId = m) ↔
    ∃ p ∈ s'.participants.rows, p.eventId = id ∧ p.memberId = m

def SameOutcome {α : Type} (x y : Outcome α) : Prop := x.1 = y.1

theorem sameAnswer {α : Type} {x y : Except Thrown (Outcome α)} (alike : Alike Any SameOutcome x y) :
    x.map Prod.fst = y.map Prod.fst :=
  alike.settled (fun _ _ same => same) (fun _ _ => trivial) (fun _ _ => trivial)

section
variable {id : CalendarEventId} {s s' : Store}

theorem writeTwin (twin : Twin id s s') (row : EventRow) : Twin id (s.writeEvent row) (s'.writeEvent row) := by
  refine ⟨?_,twin.occurrences,twin.participants⟩
  simp only [Store.writeEvent,Table.findUpsert]
  split
  · rfl
  · exact twin.there

theorem saveTwin (twin : Twin id s s') (event : CalendarEvent) :
    Alike Any (Twin id) (s.save event) (s'.save event) := by
  refine Alike.bind (p := (· = ·)) (.same _ (fun _ _ => rfl)) (fun row _ same => ?_)
  subst same
  exact Alike.bind (p := (· = ·)) (.same _ (fun _ _ => rfl)) (fun _ _ _ => .ok (writeTwin twin row))

theorem replaceSource {familyMembers : List FamilyMemberId} {time : Instant} {members : List FamilyMemberId}
    {next : Store} (ok : s.replaceForEvent familyMembers time id members = .ok next) :
    next.events = s.events ∧ next.occurrences = s.occurrences ∧
      ∀ m, (∃ p ∈ next.participants.rows, p.eventId = id ∧ p.memberId = m) ↔ m ∈ members := by
  unfold Store.replaceForEvent at ok
  simp only at ok
  split at ok
  swap
  · cases ok
  cases ok
  refine ⟨rfl,rfl,fun m => ?_⟩
  simp only [Table.append,Table.deleteWhere,List.mem_append,List.mem_filter]
  constructor
  · rintro ⟨p,⟨-,kept⟩ | new,own,rfl⟩
    · simpa [own] using kept
    · obtain ⟨m,source,rfl⟩ := List.mem_map.mp new
      exact List.mem_dedup.mp (List.mem_filter.mp source).1
  · intro mem
    by_cases old : ∃ p ∈ s.participants.rows, p.eventId = id ∧ p.memberId = m
    · obtain ⟨p,there,own,rfl⟩ := old
      exact ⟨p,.inl ⟨there,by simp [mem]⟩,own,rfl⟩
    · refine ⟨⟨id,m,time⟩,.inr (List.mem_map_of_mem (List.mem_filter.mpr ⟨List.mem_dedup.mpr mem,?_⟩)),rfl,rfl⟩
      cases found : ((s.participants.deleteWhere fun p => p.eventId = id && p.memberId ∉ members).find (id,m)) with
      | none => exact Option.isNone_iff_eq_none.mpr found
      | some p =>
        obtain ⟨source,key⟩ := Table.findSource found
        obtain ⟨rfl,rfl⟩ := Prod.mk.inj key
        exact absurd ⟨p,List.mem_of_mem_filter source,rfl,rfl⟩ old

/- Of the members to add, those are free that take no part so far. -/
theorem freeParticipant {members : List FamilyMemberId} {m : FamilyMemberId} (u : Store) (mem : m ∈ members) :
    ((u.participants.deleteWhere fun p => p.eventId = id && p.memberId ∉ members).find (id,m)).isNone = true ↔
      ¬ ∃ p ∈ u.participants.rows, p.eventId = id ∧ p.memberId = m := by
  rw [Option.isNone_iff_eq_none]
  constructor
  · rintro absent ⟨p,there,rfl,rfl⟩
    exact Table.findAbsent absent p (List.mem_filter.mpr ⟨there,by simp [mem]⟩) rfl
  · intro none
    by_contra some_
    obtain ⟨p,found⟩ := Option.ne_none_iff_exists'.mp some_
    obtain ⟨source,key⟩ := Table.findSource found
    obtain ⟨rfl,rfl⟩ := Prod.mk.inj key
    exact none ⟨p,List.mem_of_mem_filter source,rfl,rfl⟩

theorem replaceTwin (familyMembers : List FamilyMemberId) (time : Instant) (members : List FamilyMemberId)
    (twin : Twin id s s') : Alike Any (Twin id) (s.replaceForEvent familyMembers time id members)
      (s'.replaceForEvent familyMembers time id members) := by
  have fresh : members.dedup.filter (fun m =>
        ((s.participants.deleteWhere fun p => p.eventId = id && p.memberId ∉ members).find (id,m)).isNone) =
      members.dedup.filter (fun m =>
        ((s'.participants.deleteWhere fun p => p.eventId = id && p.memberId ∉ members).find (id,m)).isNone) := by
    refine List.filter_congr (fun m mem => ?_)
    have listed := List.mem_dedup.mp mem
    rw [Bool.eq_iff_iff,freeParticipant s listed,freeParticipant s' listed,twin.participants m]
  cases left : s.replaceForEvent familyMembers time id members with
  | ok next =>
    cases right : s'.replaceForEvent familyMembers time id members with
    | ok next' =>
      obtain ⟨events,occurrences,all⟩ := replaceSource left
      obtain ⟨events',occurrences',all'⟩ := replaceSource right
      refine .ok ⟨?_,?_,fun m => (all m).trans (all' m).symm⟩
      · rw [events,events']
        exact twin.there
      · rw [occurrences,occurrences']
        exact twin.occurrences
    | error e =>
      unfold Store.replaceForEvent at left right
      simp only [fresh,twin.there] at left right
      split at right
      · cases right
      · rename_i not
        split at left
        · rename_i is
          exact absurd is not
        · cases left
  | error e =>
    unfold Store.replaceForEvent at left ⊢
    simp only [fresh,twin.there] at left ⊢
    split at left
    · cases left
    · rename_i not
      split
      · rename_i is
        exact absurd is not
      · cases left
        exact .error _

theorem selectedPerm (twin : Twin id s s') {p : EventOccurrence → Bool} (own : ∀ o, p o = true → o.eventId = id) :
    (s.occurrences.rows.filter p).Perm (s'.occurrences.rows.filter p) := by
  refine (List.perm_ext_iff_of_nodup (s.occurrences.rowsNodup.filter p) (s'.occurrences.rowsNodup.filter p)).mpr
    (fun o => ?_)
  rw [List.mem_filter,List.mem_filter]
  exact and_congr_left (fun selected => twin.occurrences o (own o selected))

theorem filterLength {α : Type} (xs : List α) (p : α → Bool) :
    xs.length - (xs.filter (fun x => !p x)).length = (xs.filter p).length := by
  have parts := xs.length_eq_length_filter_add p
  have rest : (xs.filter (fun x => !p x)).length = (xs.filter (fun x => !p x)).length := rfl
  omega

theorem deleteTwin (twin : Twin id s s') (p : EventOccurrence → Bool) :
    Twin id (s.deleteOccurrences p) (s'.deleteOccurrences p) := by
  refine ⟨twin.there,fun o own => ?_,twin.participants⟩
  simp only [Store.deleteOccurrences,Occurrences.deleteWhere,Table.deleteWhere,List.mem_filter]
  exact and_congr_left (fun _ => twin.occurrences o own)

theorem updateTwin (twin : Twin id s s') (p : EventOccurrence → Bool) {f : EventOccurrence → EventOccurrence}
    (keeps : Occurrences.Rewrites f) : Twin id (s.updateOccurrences p f keeps) (s'.updateOccurrences p f keeps) := by
  refine ⟨twin.there,fun o own => ?_,twin.participants⟩
  simp only [Store.updateOccurrences,Occurrences.updateWhere,Table.updateWhere,List.mem_map]
  have source : ∀ x : EventOccurrence, (if p x then f x else x) = o → x.eventId = id := by
    rintro x rfl
    split at own
    · rwa [(keeps x).2.1] at own
    · exact own
  exact ⟨fun ⟨x,mem,is⟩ => ⟨x,(twin.occurrences x (source x is)).mp mem,is⟩,
    fun ⟨x,mem,is⟩ => ⟨x,(twin.occurrences x (source x is)).mpr mem,is⟩⟩

theorem updateEndTwin (twin : Twin id s s') (update : EventOccurrenceId × Option Instant) :
    Alike Any (Twin id) (s.updateEnd id update) (s'.updateEnd id update) := by
  refine Alike.bind (p := (· = ·)) (.same _ (fun _ _ => rfl)) (fun endsAt _ same => ?_)
  subst same
  have refused : s.occurrences.rows.any (fun o => (decide (o.id = update.1) && decide (o.eventId = id)) && endsAt < o.startsAt) =
      s'.occurrences.rows.any (fun o => (decide (o.id = update.1) && decide (o.eventId = id)) && endsAt < o.startsAt) := by
    rw [Bool.eq_iff_iff,List.any_eq_true,List.any_eq_true]
    refine exists_congr (fun o => and_congr_left (fun selected => ?_))
    simp only [Bool.and_eq_true,decide_eq_true_eq] at selected
    exact twin.occurrences o selected.1.2
  simp only [refused]
  split
  · exact .error _
  · exact .ok (updateTwin twin _ _)

end

structure Filled (id : CalendarEventId) (base base' : Nat) (s s' : Store) : Prop where
  there : (s.events.find id).isSome = (s'.events.find id).isSome
  taken : ∀ t, (∃ o ∈ s.occurrences.rows, (o.eventId, o.startsAt) = (id, t)) ↔
    ∃ o ∈ s'.occurrences.rows, (o.eventId, o.startsAt) = (id, t)
  grown : s.occurrences.rows.length + base' = s'.occurrences.rows.length + base

section
variable {id : CalendarEventId} {s s' : Store}

theorem twinFilled (twin : Twin id s s') :
    Filled id s.occurrences.rows.length s'.occurrences.rows.length s s' := by
  refine ⟨twin.there,fun t => exists_congr (fun o => and_congr_left (fun slot => ?_)),Nat.add_comm _ _⟩
  exact twin.occurrences o (Prod.mk.inj slot).1

theorem takenInsert {t : Occurrences} {startsAt endsAt : Instant} {x : Instant} :
    (∃ o ∈ (t.insertOrSkip id startsAt endsAt).rows, (o.eventId, o.startsAt) = (id, x)) ↔
      (∃ o ∈ t.rows, (o.eventId, o.startsAt) = (id, x)) ∨ startsAt = x := by
  unfold Occurrences.insertOrSkip
  split
  · simp only [List.mem_append,List.mem_singleton,or_and_right,exists_or,exists_eq_left,Prod.mk.injEq,true_and]
  · rename_i taken
    refine ⟨.inl,?_⟩
    rintro (old | rfl)
    · exact old
    · by_contra none
      exact taken (fun o mem same => none ⟨o,mem,same⟩)

theorem insertFilled {base base' : Nat} (filled : Filled id base base' s s') (occurrence : PlannedOccurrence) :
    Alike Any (Filled id base base') (s.insertPlanned id occurrence) (s'.insertPlanned id occurrence) := by
  refine Alike.bind (p := (· = ·)) (.same _ (fun _ _ => rfl)) (fun endsAt _ same => ?_)
  subst same
  refine Alike.bind (p := (· = ·)) (.same _ (fun _ _ => rfl)) (fun _ _ _ => ?_)
  by_cases there : (s.events.find id).isSome
  · rw [dif_pos there,dif_pos (filled.there ▸ there)]
    refine .ok ⟨filled.there,fun x => ?_,?_⟩
    · rw [takenInsert,takenInsert,filled.taken]
    · have same : (∀ o ∈ s.occurrences.rows, (o.eventId, o.startsAt) ≠ (id, occurrence.startsAt)) ↔
          ∀ o ∈ s'.occurrences.rows, (o.eventId, o.startsAt) ≠ (id, occurrence.startsAt) := by
        have := not_congr (filled.taken occurrence.startsAt)
        simpa only [not_exists,not_and] using this
      have grown := filled.grown
      simp only [Occurrences.insertOrSkip]
      by_cases free : ∀ o ∈ s.occurrences.rows, (o.eventId, o.startsAt) ≠ (id, occurrence.startsAt)
      · rw [dif_pos free,dif_pos (same.mp free)]
        simp only [List.length_append,List.length_singleton]
        omega
      · rw [dif_neg free,dif_neg (fun free' => free (same.mpr free'))]
        exact grown
  · rw [dif_neg there,dif_neg (filled.there ▸ there)]
    exact .error _

theorem applyAlike (twin : Twin id s s') (plan : ReconcilePlan) :
    Alike Any (fun x y => x.1 = y.1) (s.applyPlan id plan) (s'.applyPlan id plan) := by
  have own : ∀ o : EventOccurrence, (o.eventId = id && o.id ∈ plan.toDelete) = true → o.eventId = id := by
    intro o selected
    simpa using (Bool.and_eq_true_iff.mp selected).1
  have deleted := (selectedPerm twin own).length_eq
  refine (Alike.foldlM (fun _ _ update twin => updateEndTwin twin update) _ (deleteTwin twin _)).bind
    (fun updated updated' twin => ?_)
  refine (Alike.foldlM (fun _ _ occurrence filled => insertFilled filled occurrence) _ (twinFilled twin)).bind
    (fun inserted inserted' filled => .ok ?_)
  have grown := filled.grown
  simp only [Store.deleteOccurrences,Occurrences.deleteWhere,Table.deleteWhere,filterLength,deleted,
    ReconcileCounts.mk.injEq,and_true]
  omega

theorem listSame (twin : Twin id s s') (startingFrom : Option Instant) :
    s.listForEvent id startingFrom = s'.listForEvent id startingFrom := by
  have total : Std.Total startOrder := ⟨fun a b => Int.le_total a.startsAt b.startsAt⟩
  have trans : IsTrans EventOccurrence startOrder := ⟨fun _ _ _ ab bc => Int.le_trans ab bc⟩
  refine Table.selectedSame (fun a b left right ab ba => ?_) (fun o => ?_)
  · have ownA := (Bool.and_eq_true_iff.mp left.2).1
    have ownB := (Bool.and_eq_true_iff.mp right.2).1
    simp only [decide_eq_true_eq] at ownA ownB
    have one := List.inj_on_of_nodup_map s'.occurrences.slots left.1 right.1
      (Prod.ext (ownA.trans ownB.symm) (Int.le_antisymm ab ba))
    rw [one]
  · refine and_congr_left (fun selected => twin.occurrences o ?_)
    simpa using (Bool.and_eq_true_iff.mp selected).1

theorem rematerialiseAlike {intl : Intl} {event : CalendarEvent} (twin : Twin event.id s s') (now : Instant) :
    Alike Any (fun x y => x.map (fun done => (done.1, done.2.1)) = y.map (fun done => (done.1, done.2.1)))
      (rematerialise intl s event now) (rematerialise intl s' event now) := by
  refine Alike.bind (p := (· = ·)) (.same _ (fun _ _ => rfl)) (fun planned _ same => ?_)
  subst same
  cases planned with
  | error e => exact .ok rfl
  | ok plan =>
    simp only [listSame twin plan.scopeFrom]
    refine (applyAlike twin _).bind (fun x y same => ?_)
    obtain ⟨counts,next⟩ := x
    obtain ⟨counts',next'⟩ := y
    obtain rfl : counts = counts' := same
    exact .ok rfl

theorem saveAlways (event : CalendarEvent) (t u : Store) :
    Alike Any (fun _ _ => True) (t.save event) (u.save event) :=
  Alike.bind (p := (· = ·)) (.same _ (fun _ _ => rfl)) (fun _ _ same =>
    same ▸ Alike.bind (p := (· = ·)) (.same _ (fun _ _ => rfl)) (fun _ _ _ => .ok trivial))

theorem rescheduleAlike {intl : Intl} {r : Request} {event : CalendarEvent} {changed : List ChangedFieldGroup}
    {rollback rollback' : Store} (twin : Twin event.id s s') :
    Alike Any SameOutcome (rescheduleEvent intl s r event changed rollback)
      (rescheduleEvent intl s' r event changed rollback') := by
  refine (rematerialiseAlike twin r.now).bind (fun x y same => ?_)
  cases x with
  | error e =>
    cases y with
    | error e' =>
      cases same
      exact .ok rfl
    | ok => cases same
  | ok done =>
    cases y with
    | error => cases same
    | ok done' =>
      obtain ⟨done,marked,filled⟩ := done
      obtain ⟨done',marked',filled'⟩ := done'
      obtain ⟨rfl,rfl⟩ := Prod.mk.inj (Except.ok.inj same)
      exact (saveAlways marked filled filled').bind (fun _ _ _ => .ok rfl)

theorem afterParticipantsAlike {intl : Intl} {r : Request} {event : CalendarEvent} {changed : List ChangedFieldGroup}
    {rollback rollback' : Store} (twin : Twin event.id s s') :
    Alike Any SameOutcome (afterParticipants intl r event changed rollback s)
      (afterParticipants intl r event changed rollback' s') := by
  unfold afterParticipants
  split
  · exact rescheduleAlike twin
  · exact .ok rfl

theorem replaceParticipantsAlike {α : Type} {r : Request} {event : CalendarEvent} {rollback rollback' : Store}
    {work work' : Store → Except Thrown (Outcome α)} (twin : Twin event.id s s')
    (after : ∀ t u, Twin event.id t u → Alike Any SameOutcome (work t) (work' u)) :
    Alike Any SameOutcome (replaceParticipants s r event work rollback)
      (replaceParticipants s' r event work' rollback') := by
  have replaced := replaceTwin r.familyMembers r.transactionTime event.participants twin
  unfold replaceParticipants
  generalize s.replaceForEvent r.familyMembers r.transactionTime event.id event.participants = x at replaced
  generalize s'.replaceForEvent r.familyMembers r.transactionTime event.id event.participants = y at replaced
  cases replaced with
  | ok next => exact after _ _ next
  | error e =>
    cases e with
    | participantNotInFamily => exact .ok rfl
    | _ => exact .error _
  | left excluded => exact absurd trivial excluded
  | right excluded => exact absurd trivial excluded

theorem updateLockedAlike {intl : Intl} {r : Request} {patch : EventPatch} {event : CalendarEvent}
    (twin : Twin event.id s s') :
    Alike Any SameOutcome (updateLocked intl s r patch event) (updateLocked intl s' r patch event) := by
  unfold updateLocked
  split
  · exact .ok rfl
  rename_i updated changed ok
  split
  · exact .ok rfl
  have own : updated.id = event.id := (CalendarEvent.updateEdited ok).id
  refine (saveTwin twin updated).bind (fun saved saved' twin => ?_)
  rw [← own] at twin
  simp only
  split
  · exact replaceParticipantsAlike twin (fun t u twin => afterParticipantsAlike twin)
  · exact afterParticipantsAlike twin

end
end FamilyPlatform.Calendar
