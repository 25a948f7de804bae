import FamilyPlatform.Calendar.Covered

/-! An occurrence that was cancelled by itself. A reconcile leaves the row of an instant that is still planned alone but
for its end; an instant that lies past the horizon is not planned, whatever the rule. -/
namespace FamilyPlatform.Calendar
open ZonedTime Civil Recurrence RecurrenceRule

def Produced (occurs : RecurrenceRule → LocalDateTime → Zone → ExpandedOccurrence → Prop) (intl : Intl) (row : EventRow)
    (x : Instant) : Prop :=
  match row.recurrenceRule with
  | none => ∃ p, planOneOff intl row.timeZone row.timing = some p ∧ p.startsAt = x
  | some text => ∃ rule zone dtstart y, parse text = .ok rule ∧ intl row.timeZone = some zone ∧
      dtstartOf zone row.timing = some dtstart ∧ occurs rule dtstart zone y ∧ y.instant = x

def Reached (intl : Intl) (now : Instant) (row : EventRow) (x : Instant) : Prop :=
  Produced Scheduled intl row x ∧
    (row.recurrenceRule.isSome → (materialisationWindow now).start ≤ x ∧ x < (materialisationWindow now).stop)

/- A cancelled occurrence keeps its mark, or the event does not have it any more. -/
def Upholds (intl : Intl) (now : Instant) (id : CalendarEventId) (s next : Store) : Prop :=
  ∀ x o time, s.slot id x = some o → o.cancelledAt = some time → next.markAt id x = some (o.id,some time) ∨
    ∀ row, next.events.find id = some row → ¬ Reached intl now row x

section
variable {intl : Intl} {s mid next : Store} {id : CalendarEventId} {event : CalendarEvent} {since now : Instant}
  {r : Request} {x : Instant} {row : EventRow}

theorem Store.SameTables.upholds (same : Store.SameTables s next) : Upholds intl now id s next := by
  intro x o time found is
  refine .inl ?_
  rw [Store.markAt,Store.slot,same.occurrences]
  exact congrArg (Option.map _) found |>.trans (by rw [Option.map_some,is])

theorem Upholds.after (occurrences : mid.occurrences = s.occurrences) (rest : Upholds intl now id mid next) :
    Upholds intl now id s next := by
  intro x o time found is
  exact rest x o time (by rw [Store.slot,occurrences]; exact found) is

theorem Upholds.before (first : Upholds intl now id s mid) (same : Store.SameTables mid next) :
    Upholds intl now id s next := by
  intro x o time found is
  rcases first x o time found is with kept | gone
  · exact .inl (by rw [Store.markAt,Store.slot,same.occurrences]; exact kept)
  · exact .inr (fun row there => gone row (by rw [← same.events]; exact there))

theorem planSource {plan : OccurrencePlan} (dated : event.timing.Dated)
    (ruled : ∀ rule, event.recurrenceRule = some rule → Exact rule)
    (planned : planOccurrences intl event (materialisationWindow now) = some (.ok plan)) :
    (∀ p ∈ plan.planned, inScope plan.scopeFrom p.startsAt = true) ∧
      ∀ row x, row.timing = event.timing → row.timeZone = event.timeZone →
        row.recurrenceRule = event.recurrenceRule.map RecurrenceRule.toText → Reached intl now row x →
          x ∈ plan.planned.map PlannedOccurrence.startsAt := by
  unfold planOccurrences at planned
  cases rule : event.recurrenceRule with
  | none =>
    simp only [rule] at planned
    obtain ⟨p,oneOff,is⟩ := Option.map_eq_some_iff.mp planned
    cases is
    refine ⟨fun _ _ => rfl,fun row x timing timeZone text reached => ?_⟩
    rw [Option.map_none] at text
    obtain ⟨produced,-⟩ := reached
    rw [Produced,text,timing,timeZone] at produced
    obtain ⟨q,again,rfl⟩ := produced
    cases oneOff.symm.trans again
    exact List.mem_singleton.mpr rfl
  | some rule' =>
    simp only [rule,bind,Option.bind_eq_some_iff] at planned
    obtain ⟨zone,named,series⟩ := planned
    obtain ⟨dtstart,read,plans⟩ := seriesPlanned dated (windowWidth now) series
    refine ⟨fun p mem => ?_,fun row x timing timeZone text reached => ?_⟩
    · rw [plans.scope]
      exact decide_eq_true (plans.within p mem).1
    · rw [Option.map_some] at text
      obtain ⟨produced,inside⟩ := reached
      obtain ⟨start,stop⟩ := inside (by rw [text]; rfl)
      rw [Produced,text,timing,timeZone] at produced
      obtain ⟨other,zone',dtstart',y,parsed,named',read',scheduled,rfl⟩ := produced
      obtain rfl := parseAgain (ruled rule' rule) parsed
      cases named.symm.trans named'
      cases read.symm.trans read'
      obtain ⟨p,mem,is⟩ := plans.complete y scheduled start stop
      exact List.mem_map.mpr ⟨p,mem,plannedStart is⟩

theorem settledUpholds {marked : CalendarEvent} {filled rest : Store} {done : Rematerialised} (dated : event.timing.Dated)
    (ruled : ∀ rule, event.recurrenceRule = some rule → Exact rule)
    (ok : rematerialise intl s event now = .ok (.ok (done,marked,filled))) (trimmed : Trimmed event now filled rest)
    (saved : rest.save marked = .ok next) : Upholds intl now id s next := by
  obtain ⟨result,planned,ok⟩ := bindSource ok
  have plans := orThrowSource planned
  cases result with
  | error e => cases ok
  | ok plan =>
    obtain ⟨⟨counts,_⟩,applying,ok⟩ := bindSource ok
    cases ok
    obtain ⟨within,complete⟩ := planSource dated ruled plans
    have outcome := applied listForEventLists within applying
    have marks : (event.recordMaterialisedThrough plan.materialisedThrough).timing.Dated := dated
    obtain ⟨occurrences,-,columns⟩ := savedColumns marks saved
    intro x o time found is
    have last : next.markAt id x = rest.markAt id x := by rw [Store.markAt,Store.markAt,Store.slot,Store.slot,occurrences]
    rw [last]
    by_cases own : id = event.id
    swap
    · refine .inl ?_
      rw [Store.markAt,trimmed.beside.others id x own,outcome.beside.others id x own,found,Option.map_some,is]
    subst own
    by_cases reached : ∃ row, next.events.find event.id = some row ∧ Reached intl now row x
    swap
    · exact .inr (fun row there reaches => reached ⟨row,there,reaches⟩)
    obtain ⟨row,there,reaches⟩ := reached
    change (next.events.find event.id).map EventRow.schedule = _ at columns
    rw [there,Option.map_some,Option.some.injEq] at columns
    simp only [EventRow.schedule,CalendarEvent.schedule,Prod.mk.injEq] at columns
    obtain ⟨timing,timeZone,text,-⟩ := columns
    have held := outcome.held x (complete row x timing timeZone text reaches) o found
    refine .inl ?_
    rw [Store.markAt,trimmed.same x,← is]
    · exact held
    · cases rule : event.recurrenceRule with
      | none => exact .inr rfl
      | some rule' =>
        have series : row.recurrenceRule.isSome := by
          rw [text]
          change (event.recurrenceRule.map RecurrenceRule.toText).isSome
          rw [rule]
          rfl
        exact .inl (reaches.2 series).1

theorem Effect.upholds {other : CalendarEventId} (effect : Effect intl now other s next) : Upholds intl now id s next := by
  cases effect with
  | still occurrences _ =>
    refine Upholds.after occurrences ?_
    exact Store.SameTables.upholds ⟨rfl,rfl⟩
  | settled _ dated ruled occurrences _ filling trimmed saving after =>
    exact ((settledUpholds dated ruled filling trimmed saving).before after).after occurrences

theorem cancelOccurrenceUpholds {other : CalendarEventId} {occurrenceId : EventOccurrenceId}
    {result : Result EventOccurrence} (ok : cancelOccurrence s r other occurrenceId = .ok (result,next)) :
    Upholds intl r.now id s next := by
  rcases whenReachableSource ok with same | ⟨event,-,worked⟩
  · exact same.upholds
  split at worked
  · cases worked
    exact Store.SameTables.upholds ⟨rfl,rfl⟩
  rename_i occurrence _
  simp only at worked
  split at worked <;> cases worked
  · exact Store.SameTables.upholds ⟨rfl,rfl⟩
  intro x o time found is
  refine .inl ?_
  have slot : (s.cancelOccurrenceRow occurrence.id r.now).slot id x = (s.slot id x).map (fun o =>
      if o.id = occurrence.id && o.cancelledAt.isNone then { o with cancelledAt := some r.now } else o) :=
    Store.updateSlot _ (fun o => { o with cancelledAt := some r.now }) (fun _ => ⟨rfl,rfl,rfl⟩)
  change ((s.cancelOccurrenceRow occurrence.id r.now).slot id x).map _ = _
  rw [slot,found]
  simp [is]

theorem prunedUpholds : Upholds intl now id s (pruneTrailingOccurrences s now).2 := by
  intro x o time found is
  change ((s.deleteOccurrences _).slot id x).map _ = _ ∨ _
  rw [Store.deleteSlot,found]
  obtain ⟨-,own,rfl⟩ := Store.slotOwn found
  by_cases selected : o.startsAt < (materialisationWindow now).start ∧
      (s.events.find id).any (fun row => row.recurrenceRule.isSome) = true
  · refine .inr (fun row there reached => ?_)
    have series := selected.2
    rw [show s.events.find id = some row from there] at series
    exact absurd (reached.2 series).1 (not_le.mpr selected.1)
  · refine .inl ?_
    simp only [Option.filter,own]
    rw [if_pos (by by_contra spared; exact selected (by simpa using spared)),Option.map_some,is]

theorem stepUpholds {step : Step} (kept : ∀ id, Kept intl since s id) (dated : step.Dated) :
    Upholds intl step.now id s (step.apply intl s) := by
  have each : ∀ {α : Type} {x : Except Thrown (Outcome α)},
      (∀ result next, x = .ok (result,next) → Upholds intl step.now id s next) →
        Upholds intl step.now id s (committed s x) := by
    intro α x all
    cases x with
    | error e => exact Store.SameTables.upholds ⟨rfl,rfl⟩
    | ok outcome => exact all outcome.1 outcome.2 rfl
  cases step with
  | create r other params => exact each (fun _ _ ok => (createEffect dated ok).upholds)
  | update r other patch => exact each (fun _ _ ok => (updateEffect dated (kept other) ok).upholds)
  | cancel r other => exact each (fun _ _ ok => (cancelEffect (kept other) ok).upholds)
  | cancelOccurrence r other occurrenceId => exact each (fun _ _ ok => cancelOccurrenceUpholds ok)
  | materialise now other => exact each (fun _ _ ok => (materialiseEffect (kept other) ok).upholds)
  | prune now => exact prunedUpholds

theorem runUpholds {steps : List Step} {o : EventOccurrence} {time : Instant}
    (clock : (now :: steps.map Step.now).Pairwise (· ≤ ·)) (dated : ∀ step ∈ steps, step.Dated)
    (kept : ∀ id, Kept intl (materialisationWindow now).start s id) (found : s.slot id x = some o)
    (is : o.cancelledAt = some time)
    (reaches : ∀ done step rest, steps = done ++ step :: rest → ∃ row,
      ((done ++ [step]).foldl (Step.apply intl) s).events.find id = some row ∧ Reached intl step.now row x) :
    (steps.foldl (Step.apply intl) s).markAt id x = some (o.id,some time) := by
  induction steps generalizing s now o with
  | nil => rw [List.foldl_nil,Store.markAt,found,Option.map_some,is]
  | cons step rest ih =>
    obtain ⟨first,later⟩ := List.pairwise_cons.mp clock
    have le := first step.now List.mem_cons_self
    obtain ⟨row,there,reached⟩ := reaches [] step rest rfl
    rcases stepUpholds kept (dated step List.mem_cons_self) x o time found is with mark | gone
    · obtain ⟨o',found',same⟩ := Option.map_eq_some_iff.mp mark
      obtain ⟨own,is'⟩ := Prod.mk.inj same
      rw [← own]
      exact ih later (fun other mem => dated other (List.mem_cons_of_mem step mem))
        (stepKept kept (dated step List.mem_cons_self) (windowMono le)) found' is'
        (fun done other after split => reaches (step :: done) other after (by rw [split]; rfl))
    · exact absurd reached (gone row there)

end

/- What is left of the rows of an event after a reconcile, and that there is then nothing more to do. -/
structure Leaves (id : CalendarEventId) (scopeFrom : Option Instant) (planned : List PlannedOccurrence) (s next : Store) :
    Prop where
  each : ∀ p ∈ planned, ∃ o, next.rowsAt id p.startsAt = [o] ∧ plannedEnd planned p.startsAt = some o.endsAt ∧
    (∀ old, s.rowsAt id p.startsAt = [old] → o.id = old.id ∧ o.cancelledAt = old.cancelledAt) ∧
    (s.rowsAt id p.startsAt = [] → o.cancelledAt = none ∧ ∀ old ∈ s.occurrences.rows, old.id ≠ o.id)
  rest : ∀ x, inScope scopeFrom x = true → x ∉ planned.map PlannedOccurrence.startsAt → next.rowsAt id x = []
  outside : ∀ x, inScope scopeFrom x = false → next.rowsAt id x = s.rowsAt id x
  others : ∀ other x, other ≠ id → next.rowsAt other x = s.rowsAt other x
  again : ∀ existing, Lists next id scopeFrom existing → reconcile planned existing = ⟨[],[],[]⟩

theorem appliedLeaves {s next : Store} {id : CalendarEventId} {scopeFrom : Option Instant}
    {planned : List PlannedOccurrence} (within : ∀ p ∈ planned, inScope scopeFrom p.startsAt = true)
    (outcome : Applied id scopeFrom planned s next) : Leaves id scopeFrom planned s next := by
  refine ⟨fun p mem => ?_,fun x at_ apart => ?_,fun x out => ?_,fun other x apart => ?_,
    fun existing lists => reconcileAgain within outcome lists⟩
  · have isPlanned := List.mem_map_of_mem (f := PlannedOccurrence.startsAt) mem
    obtain ⟨o,slot,ends⟩ := outcome.ends p.startsAt isPlanned
    refine ⟨o,by rw [rowsAtSlot,slot]; rfl,ends,fun old was => ?_,fun none_ => ?_⟩
    · have found : s.slot id p.startsAt = some old := memRowsAt.mp (was ▸ List.mem_singleton.mpr rfl)
      have mark := outcome.held p.startsAt isPlanned old found
      rw [Store.markAt,slot,Option.map_some] at mark
      exact Prod.mk.inj (Option.some.inj mark)
    · refine outcome.fresh p.startsAt isPlanned ?_ o slot
      cases found : s.slot id p.startsAt with
      | none => rfl
      | some old =>
        rw [rowsAtSlot,found] at none_
        cases none_
  · rw [rowsAtSlot,outcome.dropped x at_ apart]
    rfl
  · rw [rowsAtSlot,rowsAtSlot,outcome.outside x out]
  · rw [rowsAtSlot,rowsAtSlot,outcome.beside.others other x apart]

def KeepsCancelled (keeps : Intl → Instant → EventRow → Instant → Prop) : Prop :=
  ∀ (intl : Intl) (before after : List Step) (id : CalendarEventId) (x time : Instant) (o : EventOccurrence),
    ((before ++ after).map Step.now).Pairwise (· ≤ ·) → (∀ step ∈ before ++ after, step.Dated) →
    (afterSteps intl before).rowsAt id x = [o] → o.cancelledAt = some time →
    (∀ done step rest, after = done ++ step :: rest → ∃ row,
      (afterSteps intl (before ++ (done ++ [step]))).events.find id = some row ∧ keeps intl step.now row x) →
    ∃ o', (afterSteps intl (before ++ after)).rowsAt id x = [o'] ∧ o'.id = o.id ∧ o'.cancelledAt = some time

theorem reachedCancelled : KeepsCancelled Reached := by
  intro intl before after id x time o clock dated row is reaches
  have found : (afterSteps intl before).slot id x = some o := memRowsAt.mp (row ▸ List.mem_singleton.mpr rfl)
  rw [List.map_append] at clock
  obtain ⟨earlier,later,between⟩ := List.pairwise_append.mp clock
  cases latest : (before.map Step.now).getLast? with
  | none =>
    have empty : before = [] := List.map_eq_nil_iff.mp (List.getLast?_eq_none_iff.mp latest)
    subst empty
    cases row
  | some now =>
    have kept := @afterKept intl _ _ earlier (fun step mem => dated step (List.mem_append_left _ mem)) latest
    have mark := @runUpholds intl (afterSteps intl before) id now x after o time
      (List.pairwise_cons.mpr ⟨fun other mem => between now (List.mem_of_getLast? latest) other mem,later⟩)
      (fun step mem => dated step (List.mem_append_right _ mem)) kept found is (fun done step rest split => by
        obtain ⟨row,there,reached⟩ := reaches done step rest split
        exact ⟨row,by rwa [afterSteps,List.foldl_append] at there,reached⟩)
    obtain ⟨o',slot,same⟩ := Option.map_eq_some_iff.mp mark
    obtain ⟨own,is'⟩ := Prod.mk.inj same
    refine ⟨o',?_,own,is'⟩
    rw [rowsAtSlot,afterSteps,List.foldl_append]
    exact congrArg Option.toList slot

/-- A reconcile that is applied leaves exactly the planned occurrences, with the rows that there were under their
identifiers and cancellations; on the result it has nothing to do; it goes through where each end is a date not before its
start. Over a run an occurrence that was cancelled stays so while the event reaches its instant: by itself, or by its rule
between the trailing edge and the horizon. -/
theorem reconcileHolds {s : Store} {id : CalendarEventId} {scopeFrom : Option Instant} {planned : List PlannedOccurrence}
    {existing : List EventOccurrence} (lists : Lists s id scopeFrom existing)
    (within : ∀ p ∈ planned, inScope scopeFrom p.startsAt = true) :
    (∀ counts next, s.applyPlan id (reconcile planned existing) = .ok (counts,next) →
        Leaves id scopeFrom planned s next) ∧
      ((s.events.find id).isSome → (∀ p ∈ planned, ∃ e, p.endsAt = some e ∧ p.startsAt ≤ e) →
        ∃ counts next, s.applyPlan id (reconcile planned existing) = .ok (counts,next)) ∧
      KeepsCancelled Reached :=
  ⟨fun _ _ ok => appliedLeaves within (applied lists within ok),applyRuns lists within,reachedCancelled⟩

def cancelledAppointment : List Step := [.create parent 5 (appointment none),.cancelOccurrence parent 5 0]

def movedAppointment : List PlannedOccurrence :=
  [⟨3600000,some 9000000⟩,⟨86400000,some 90000000⟩,⟨3600000,some 3600000⟩]

theorem appointmentSettled :
    (∃ counts next, (afterSteps everywhereUtc cancelledAppointment).applyPlan 5 (reconcile movedAppointment
      ((afterSteps everywhereUtc cancelledAppointment).listForEvent 5 none)) = .ok (counts,next) ∧
      Leaves 5 none movedAppointment (afterSteps everywhereUtc cancelledAppointment) next) ∧
    ∃ o, (afterSteps everywhereUtc (cancelledAppointment ++ [.prune 99999999999])).rowsAt 5 3600000 = [o] ∧
      o.id = 0 ∧ o.cancelledAt = some 1000 := by
  obtain ⟨leaves,runs,keeps⟩ := @reconcileHolds (afterSteps everywhereUtc cancelledAppointment) 5 none movedAppointment _
    listForEventLists (fun _ _ => rfl)
  obtain ⟨counts,next,ok⟩ := runs (by decide +kernel) (fun p mem => by
    simp only [movedAppointment,List.mem_cons,List.not_mem_nil,or_false] at mem
    rcases mem with rfl | rfl | rfl <;> exact ⟨_,rfl,by decide⟩)
  refine ⟨⟨counts,next,ok,leaves counts next ok⟩,?_⟩
  refine keeps everywhereUtc cancelledAppointment [.prune 99999999999] 5 3600000 1000 ⟨0,5,3600000,7200000,some 1000⟩
    (by decide) (fun step mem => ?_) (by decide +kernel) rfl (fun done step rest split => ?_)
  · simp only [cancelledAppointment,List.cons_append,List.nil_append,List.mem_cons,List.not_mem_nil,or_false] at mem
    rcases mem with rfl | rfl | rfl
    · rintro i ⟨⟩
      exact ⟨by decide,by decide⟩
    · trivial
    · trivial
  · obtain ⟨rfl,is⟩ : done = [] ∧ step :: rest = [Step.prune 99999999999] := by
      cases done with
      | nil => exact ⟨rfl,split.symm⟩
      | cons head tail => simp at split
    cases is
    obtain ⟨row,there,columns⟩ := Option.map_eq_some_iff.mp (show ((afterSteps everywhereUtc (cancelledAppointment ++
      [.prune 99999999999])).events.find 5).map (fun row => (row.recurrenceRule,row.timing)) =
        some (none,.timed 3600000 7200000) by decide +kernel)
    obtain ⟨text,timing⟩ := Prod.mk.inj columns
    refine ⟨row,there,?_,fun series => by rw [text] at series; cases series⟩
    rw [Produced,text,timing]
    exact ⟨_,rfl,rfl⟩

/- An outing past the horizon that is cancelled. Made yearly it loses its row, and has a new one when the horizon gets
there. -/

def outing : NewEvent := { appointment none with timing := .timed (some 40000000000) (some 40003600000) }

def yearly : EventPatch where
  title := none
  description := none
  location := none
  category := none
  attachmentRefs := none
  timeZone := none
  timing := none
  recurrenceRule := some (some "FREQ=YEARLY")
  participants := none

def everyYear : RecurrenceRule where
  freq := .yearly
  interval := .finite 1
  count := none
  «until» := none
  byDay := []
  byMonthDay := []
  byMonth := []
  wkst := .mo
  parsed := by constructor <;> simp [JsNumber.atLeastOne]

def outingSteps : List Step := [.create parent 5 outing,.cancelOccurrence parent 5 0]

def yearlySteps : List Step := [.update parent 5 yearly,.materialise 10000000000 5]

theorem outingProduced : Produces everyYear ⟨⟨1971,4,8⟩,23,6,40⟩ .utc ⟨⟨⟨1971,4,8⟩,23,6,40⟩,40000000000⟩ :=
  ⟨⟨0,50000000000⟩,1,by decide +kernel⟩

theorem outingUncancelled : ¬ KeepsCancelled (fun intl _ row x => Produced Produces intl row x) := by
  intro keeps
  refine absurd (keeps everywhereUtc outingSteps yearlySteps 5 40000000000 1000
    ⟨0,5,40000000000,40003600000,some 1000⟩ (by decide) (fun step mem => ?_) (by decide +kernel) rfl
    (fun done step rest split => ?_)) ?_
  rotate_right
  · rintro ⟨o,is,-,cancelled⟩
    have again : (afterSteps everywhereUtc (outingSteps ++ yearlySteps)).rowsAt 5 40000000000 =
        [⟨1,5,40000000000,40003600000,none⟩] := by decide +kernel
    rw [again] at is
    cases is
    cases cancelled
  · simp only [outingSteps,yearlySteps,List.cons_append,List.nil_append,List.mem_cons,List.not_mem_nil,or_false] at mem
    rcases mem with rfl | rfl | rfl | rfl
    · rintro i ⟨⟩
      exact ⟨by decide,by decide⟩
    · trivial
    · rintro timing ⟨⟩
    · trivial
  · have columns : ((afterSteps everywhereUtc (outingSteps ++ (done ++ [step]))).events.find 5).map
        (fun row => (row.recurrenceRule,row.timing)) = some (some "FREQ=YEARLY",.timed 40000000000 40003600000) := by
      obtain ⟨rfl,rfl⟩ | ⟨rfl,rfl⟩ : done = [] ∧ step = .update parent 5 yearly ∨
          done = [.update parent 5 yearly] ∧ step = .materialise 10000000000 5 := by
        rcases done with _ | ⟨first,_ | ⟨second,more⟩⟩
        · cases split
          exact .inl ⟨rfl,rfl⟩
        · cases split
          exact .inr ⟨rfl,rfl⟩
        · simp [yearlySteps] at split
      · decide +kernel
      · decide +kernel
    obtain ⟨row,there,columns⟩ := Option.map_eq_some_iff.mp columns
    obtain ⟨text,timing⟩ := Prod.mk.inj columns
    refine ⟨row,there,?_⟩
    change Produced Produces everywhereUtc row 40000000000
    rw [Produced,text,timing]
    exact ⟨everyYear,.utc,⟨⟨1971,4,8⟩,23,6,40⟩,_,by decide +kernel,rfl,by decide +kernel,outingProduced,rfl⟩

end FamilyPlatform.Calendar
