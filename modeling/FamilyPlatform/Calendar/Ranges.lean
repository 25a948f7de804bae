import FamilyPlatform.Calendar.AllDay
import FamilyPlatform.Calendar.Cancelled

/-! What a range query comes to. Of a range only the width is checked: before the trailing edge, from the marker of a
series on and after all that an expansion goes through there are no rows, and nothing is refused. -/
namespace FamilyPlatform.Calendar
open ZonedTime Civil Recurrence RecurrenceRule

def Bounded (now : Instant) (s : Store) (id : CalendarEventId) : Prop :=
  ∀ row marker, s.events.find id = some row → row.materialisedThrough = some marker →
    marker ≤ (materialisationWindow now).stop ∧ ∀ x e, s.endAt id x = some e → x < marker

section
variable {intl : Intl} {s next : Store} {id other : CalendarEventId} {since now later : Instant} {step : Step}
  {steps : List Step}

theorem stopMono (le : now ≤ later) : (materialisationWindow now).stop ≤ (materialisationWindow later).stop :=
  Int.add_le_add_right le _

theorem Bounded.mono (bounded : Bounded now s id) (le : now ≤ later)
    (columns : (next.events.find id).map EventRow.schedule = (s.events.find id).map EventRow.schedule)
    (fewer : ∀ x e, next.endAt id x = some e → s.endAt id x = some e) : Bounded later next id := by
  intro row marker found through
  rw [found,Option.map_some] at columns
  obtain ⟨old,there,is⟩ := Option.map_eq_some_iff.mp columns.symm
  simp only [EventRow.schedule,Prod.mk.injEq] at is
  obtain ⟨before,none_⟩ := bounded old marker there (is.2.2.2.trans through)
  exact ⟨le_trans before (stopMono le),fun x e has => none_ x e (fewer x e has)⟩

theorem Bounded.spared (bounded : Bounded now s id) (le : now ≤ later) (spares : Store.Spares id s next) :
    Bounded later next id := bounded.mono le spares.1 (fun x e has => by rwa [spares.2] at has)

theorem Effect.bounded (effect : Effect intl later other s next) (bounded : Bounded now s id) (le : now ≤ later) :
    Bounded later next id := by
  by_cases own : id = other
  swap
  · exact bounded.spared le (effect.moves.1 id own)
  subst own
  cases effect with
  | still _ spares => exact bounded.spared le (spares id)
  | @settled event marked joined filled rest saved done own dated _ _ _ filling trimmed saving after =>
    subst own
    obtain ⟨-,through,rfl,-,stops⟩ := rematerialised dated filling
    have datedMarked : (event.recordMaterialisedThrough through).timing.Dated := dated
    intro row marker found is
    have columns := (savedColumns datedMarked saving).2.2
    change (saved.events.find event.id).map EventRow.schedule = _ at columns
    rw [← after.events,found,Option.map_some,Option.some.injEq] at columns
    simp only [EventRow.schedule,CalendarEvent.schedule,Prod.mk.injEq] at columns
    obtain ⟨rfl,none_⟩ := stops marker (columns.2.2.2.symm.trans is)
    refine ⟨le_refl _,fun x e has => none_ x e ?_⟩
    have same : next.endAt event.id x = rest.endAt event.id x := by
      rw [after.spares.2]
      exact congrFun (savedEnds datedMarked saving) x
    rw [same] at has
    obtain ⟨o,slot,ends⟩ := Option.map_eq_some_iff.mp has
    exact Option.map_eq_some_iff.mpr ⟨o,trimmed.fewer x o slot,ends⟩

theorem prunedFewer {x : Instant} {o : EventOccurrence}
    (found : (pruneTrailingOccurrences s now).2.slot id x = some o) : s.slot id x = some o ∧
      ∀ row, s.events.find id = some row → row.recurrenceRule.isSome → (materialisationWindow now).start ≤ x := by
  obtain ⟨there,spared⟩ := Option.filter_eq_some_iff.mp ((Store.deleteSlot _).symm.trans found)
  obtain ⟨-,own,start⟩ := Store.slotOwn there
  refine ⟨there,fun row is series => not_lt.mp (fun before => ?_)⟩
  rw [own,is,Option.any_some,series,start,decide_eq_true before] at spared
  cases spared

theorem stepBounded (kept : ∀ id, Kept intl since s id) (bounded : Bounded now s id) (dated : step.Dated)
    (le : now ≤ step.now) : Bounded step.now (step.apply intl s) id := by
  have each : ∀ {α : Type} {x : Except Thrown (Outcome α)},
      (∀ result next, x = .ok (result,next) → Bounded step.now next id) → Bounded step.now (committed s x) id := by
    intro α x all
    cases x with
    | error e => exact bounded.spared le .refl
    | ok outcome => exact all outcome.1 outcome.2 rfl
  cases step with
  | create r other params => exact each (fun _ _ ok => (createEffect dated ok).bounded bounded le)
  | update r other patch => exact each (fun _ _ ok => (updateEffect dated (kept other) ok).bounded bounded le)
  | cancel r other => exact each (fun _ _ ok => (cancelEffect (kept other) ok).bounded bounded le)
  | cancelOccurrence r other occurrenceId => exact each (fun _ _ ok => bounded.spared le (cancelOccurrenceSpares ok))
  | materialise now other => exact each (fun _ _ ok => (materialiseEffect (kept other) ok).bounded bounded le)
  | prune now =>
    refine bounded.mono le rfl (fun x e has => ?_)
    obtain ⟨o,slot,ends⟩ := Option.map_eq_some_iff.mp has
    exact Option.map_eq_some_iff.mpr ⟨o,(prunedFewer slot).1,ends⟩

theorem runBounded (clock : (now :: steps.map Step.now).Pairwise (· ≤ ·)) (dated : ∀ step ∈ steps, step.Dated)
    (kept : ∀ id, Kept intl (materialisationWindow now).start s id) (bounded : Bounded now s id) :
    Bounded ((steps.map Step.now).getLastD now) (steps.foldl (Step.apply intl) s) id := by
  induction steps generalizing s now with
  | nil => exact bounded
  | cons step rest ih =>
    obtain ⟨first,later⟩ := List.pairwise_cons.mp clock
    have le := first step.now List.mem_cons_self
    rw [List.map_cons,List.getLastD_cons]
    exact ih later (fun other mem => dated other (List.mem_cons_of_mem step mem))
      (stepKept kept (dated step List.mem_cons_self) (windowMono le))
      (stepBounded kept bounded (dated step List.mem_cons_self) le)

theorem afterBounded (clock : (steps.map Step.now).Pairwise (· ≤ ·)) (dated : ∀ step ∈ steps, step.Dated)
    (latest : (steps.map Step.now).getLast? = some now) (id : CalendarEventId) :
    Bounded now (afterSteps intl steps) id := by
  obtain ⟨first,starts,last⟩ := clockStarts clock latest
  exact last ▸ runBounded starts dated emptyKept (fun row marker found => by cases found)

end

/- The rules that the events were given: the text of a row was written from its rule, and is read as it if it can be. -/
def Given (s : Store) (given : CalendarEventId → Option RecurrenceRule) : Prop :=
  ∀ id row, s.events.find id = some row → row.recurrenceRule = (given id).map RecurrenceRule.toText ∧
    ∀ text read, row.recurrenceRule = some text → parse text = .ok read → given id = some read

def Has (intl : Intl) (row : EventRow) (x : Instant) (ends : Option Instant) : Option RecurrenceRule → Prop
  | none => planOneOff intl row.timeZone row.timing = some ⟨x,ends⟩
  | some rule => ∃ zone dtstart y, intl row.timeZone = some zone ∧ dtstartOf zone row.timing = some dtstart ∧
      Produces rule dtstart zone y ∧ y.instant = x ∧
        (planOccurrence zone row.timing y).bind PlannedOccurrence.endsAt = ends

/- One of a series from the trailing edge on and before the marker, in a period that an expansion goes through. -/
def Ready (intl : Intl) (now : Instant) (row : EventRow) (x : Instant) : Option RecurrenceRule → Prop
  | none => True
  | some rule => row.Current (materialisationWindow now).start x ∧ ∃ zone dtstart y, intl row.timeZone = some zone ∧
      dtstartOf zone row.timing = some dtstart ∧ Scheduled rule dtstart zone y ∧ y.instant = x

/- What a range owes to a reader: each occurrence of a confirmed event that they may see, if it overlaps the range. -/
structure Owed (intl : Intl) (given : CalendarEventId → Option RecurrenceRule) (s : Store) (r : Request)
    (start stop : Instant) (id : CalendarEventId) (row : EventRow) (x : Instant) (ends : Option Instant) : Prop where
  found : s.events.find id = some row
  confirmed : row.status = .confirmed
  visible : ∀ m ∈ s.participantsOf id, m ∈ r.visibility.visible
  has : Has intl row x ends (given id)
  overlaps : x < stop ∧ (start ≤ x ∨ ∃ e, ends = some e ∧ start < e)

def Complete (intl : Intl) (given : CalendarEventId → Option RecurrenceRule) (s : Store) (r : Request)
    (start stop : Instant) : Prop :=
  ∃ views next, listOccurrences intl s r (some start) (some stop) = .ok (.ok views,next) ∧
    ∀ id row x ends, Owed intl given s r start stop id row x ends →
      ∃ v ∈ views, v.eventId = id ∧ v.startsAt = x ∧ some v.endsAt = ends

def sweepSteps (ids : List CalendarEventId) (now : Instant) : List Step := ids.map (.materialise now) ++ [.prune now]

def afterSweeps (intl : Intl) (steps : List Step) (ids : List CalendarEventId) (now : Instant) : Store :=
  afterSteps intl (steps ++ sweepSteps ids now)

section
variable {intl : Intl} {steps : List Step} {ids : List CalendarEventId} {now : Instant}

theorem sweepsDated (ids : List CalendarEventId) (now : Instant) (dated : ∀ step ∈ steps, step.Dated) :
    ∀ step ∈ steps ++ sweepSteps ids now, step.Dated := by
  intro step mem
  rcases List.mem_append.mp mem with before | sweep
  · exact dated step before
  rcases List.mem_append.mp sweep with sweep | last
  · obtain ⟨id,-,rfl⟩ := List.mem_map.mp sweep
    trivial
  · rw [List.mem_singleton.mp last]
    trivial

theorem sweepsLatest : ((steps ++ sweepSteps ids now).map Step.now).getLast? = some now := by
  rw [sweepSteps,← List.append_assoc,List.map_append,List.map_singleton,List.getLast?_concat]
  rfl

theorem sweepsPruned : afterSweeps intl steps ids now =
    (pruneTrailingOccurrences (afterSteps intl (steps ++ ids.map (.materialise now))) now).2 := by
  rw [afterSweeps,sweepSteps,← List.append_assoc,afterSteps,List.foldl_append]
  rfl

end

section
variable {intl : Intl} {s : Store} {id : CalendarEventId} {row : EventRow} {x e now : Instant} {rule : RecurrenceRule}
  {given : Option RecurrenceRule} {zone : Zone} {dtstart : LocalDateTime} {y z : ExpandedOccurrence}
  {timing : EventTiming} {ends : Option Instant} {endAt : Instant → Option Instant}

theorem plannedSame (dated : timing.Dated) (read : dtstartOf zone timing = some dtstart)
    (producedY : Produces rule dtstart zone y) (producedZ : Produces rule dtstart zone z)
    (same : y.instant = z.instant) : planOccurrence zone timing y = planOccurrence zone timing z := by
  cases timing with
  | timed startsAt endsAt => rw [planOccurrence,planOccurrence,same]
  | allDay startDate endDate =>
    cases read
    rw [(producedMidnight dated.1 producedY).sameInstant (producedMidnight dated.1 producedZ) same]

theorem readyRow (dated : row.timing.Dated) (fits : Fits intl row.timing row.timeZone row.materialisedThrough
    (materialisationWindow now).start endAt given) (has : Has intl row x ends given)
    (ready : Ready intl now row x given) : ∃ e, ends = some e ∧ endAt x = some e := by
  cases given with
  | none =>
    obtain ⟨p,planned,isSome,all⟩ := fits
    cases planned.symm.trans has
    obtain ⟨e,is⟩ := Option.isSome_iff_exists.mp isSome
    exact ⟨e,is,(all x).trans ((if_pos rfl).trans is)⟩
  | some rule =>
    obtain ⟨zone,dtstart,named,read,all⟩ := fits
    obtain ⟨zone',dtstart',y,named',read',produced,instant,ending⟩ := has
    obtain ⟨⟨above,below⟩,zone'',dtstart'',z,named'',read'',scheduled,instant'⟩ := ready
    cases named.symm.trans named'
    cases named.symm.trans named''
    cases read.symm.trans read'
    cases read.symm.trans read''
    obtain ⟨e,planned,there⟩ := (all x above below).1 z scheduled instant'
    rw [plannedSame dated read produced scheduled.produced (instant.trans instant'.symm),planned] at ending
    exact ⟨e,ending.symm,there⟩

theorem rowReady (fits : Fits intl row.timing row.timeZone row.materialisedThrough
    (materialisationWindow now).start endAt given)
    (current : given.isSome → row.Current (materialisationWindow now).start x) (there : endAt x = some e) :
    Has intl row x (some e) given ∧ Ready intl now row x given := by
  cases given with
  | none =>
    obtain ⟨p,planned,-,all⟩ := fits
    rw [all] at there
    split at there
    · rename_i start
      exact ⟨planned.trans (congrArg some (by rw [← start,← there])),trivial⟩
    · cases there
  | some rule =>
    obtain ⟨zone,dtstart,named,read,all⟩ := fits
    obtain ⟨above,below⟩ := current rfl
    obtain ⟨y,scheduled,planned⟩ := (all x above below).2 e there
    have instant := (plannedStart planned).symm
    exact ⟨⟨zone,dtstart,y,named,read,scheduled.produced,instant,by rw [planned]; rfl⟩,
      ⟨above,below⟩,zone,dtstart,y,named,read,scheduled,instant⟩

theorem hasReads {startDate endDate : LocalDate} (dated : Dated startDate)
    (timing : row.timing = .allDay startDate endDate) (has : Has intl row x ends given) :
    ∃ zone reading, intl row.timeZone = some zone ∧ instantToLocal zone x = some reading := by
  cases given with
  | none =>
    rw [Has,timing] at has
    simp only [planOneOff,bind,Option.bind_eq_some_iff] at has
    obtain ⟨zone,named,first,start,_,-,_,-,is⟩ := has
    cases is
    have low : -719170 ≤ (atTime startDate 0 0 0).toDate.number := le_trans (by decide) dated.start.low
    obtain ⟨reading,read,-⟩ := Option.map_eq_some_iff.mp (@midnightDate zone (atTime startDate 0 0 0) x dated.real
      (by simp [LocalDateTime.Clock,atTime]) rfl low start)
    exact ⟨zone,reading,named,read⟩
  | some rule =>
    obtain ⟨zone,dtstart,y,named,start,produced,rfl,-⟩ := has
    rw [timing] at start
    cases start
    obtain ⟨reading,read,-⟩ := Option.map_eq_some_iff.mp (producedMidnight dated produced).on
    exact ⟨zone,reading,named,read⟩

theorem hasView {o : EventOccurrence} {participants : List FamilyMemberId} (dated : row.timing.Dated)
    (has : Has intl row o.startsAt ends given) : ∃ v, viewOf intl o row participants = .ok v := by
  cases timing : row.timing with
  | timed startsAt endsAt => exact ⟨_,by simp only [viewOf,viewDates,timing]; rfl⟩
  | allDay startDate endDate =>
    rw [timing] at dated
    obtain ⟨zone,reading,named,read⟩ := hasReads dated.1 timing has
    exact ⟨_,by simp only [viewOf,viewDates,timing,named,read,orThrow,bind,Except.bind]; rfl⟩

end

section
variable {intl : Intl} {s : Store} {r : Request} {start stop now : Instant} {views : List OccurrenceView}
  {given : CalendarEventId → Option RecurrenceRule} {id : CalendarEventId} {row : EventRow} {x : Instant}

theorem rangeListed (accepted : checkRange (some start) (some stop) = .ok (start,stop)) :
    (∃ next, listOccurrences intl s r (some start) (some stop) = .ok (.ok views,next)) ↔
      s.listVisibleInRange intl ⟨start,stop,r.visibility.visible⟩ = .ok views := by
  simp only [listOccurrences,accepted]
  cases s.listVisibleInRange intl ⟨start,stop,r.visibility.visible⟩ with
  | error e => simp [bind,Except.bind]
  | ok found =>
    simp only [bind,Except.bind,pure,Except.pure,Except.ok.injEq,Prod.mk.injEq]
    exact ⟨fun ⟨_,is,_⟩ => is,fun is => ⟨_,is,rfl⟩⟩

structure Fitted (intl : Intl) (now : Instant) (s : Store) (given : CalendarEventId → Option RecurrenceRule) :
    Prop where
  rules : Given s given
  dated : ∀ id row, s.events.find id = some row → row.timing.Dated
  fits : ∀ id row, s.events.find id = some row → Fits intl row.timing row.timeZone row.materialisedThrough
    (materialisationWindow now).start (s.endAt id) (given id)
  current : ∀ id row x e, s.events.find id = some row → s.endAt id x = some e → (given id).isSome →
    row.Current (materialisationWindow now).start x

theorem keptGiven {since : Instant} (kept : ∀ id, Kept intl since s id) : ∃ given, Given s given ∧
    ∀ id row, s.events.find id = some row → row.timing.Dated ∧
      Fits intl row.timing row.timeZone row.materialisedThrough since (s.endAt id) (given id) := by
  have each : ∀ id, ∃ rule : Option RecurrenceRule, ∀ row, s.events.find id = some row → row.timing.Dated ∧
      (∀ r, rule = some r → Exact r) ∧ row.recurrenceRule = rule.map RecurrenceRule.toText ∧
        Fits intl row.timing row.timeZone row.materialisedThrough since (s.endAt id) rule := by
    intro id
    cases found : s.events.find id with
    | none => exact ⟨none,fun row is => by cases is⟩
    | some row =>
      obtain ⟨dated,rule,all⟩ := kept id row found
      exact ⟨rule,fun other is => by cases is; exact ⟨dated,all⟩⟩
  choose given all using each
  refine ⟨given,fun id row found => ?_,fun id row found => ⟨(all id row found).1,(all id row found).2.2.2⟩⟩
  obtain ⟨-,exact_,written,-⟩ := all id row found
  refine ⟨written,fun text read is parsed => ?_⟩
  obtain ⟨rule,own,rfl⟩ := Option.map_eq_some_iff.mp (written.symm.trans is)
  rw [own,parseAgain (exact_ rule own) parsed]

theorem prunedFitted (kept : ∀ id, Kept intl (materialisationWindow now).start (pruneTrailingOccurrences s now).2 id)
    (bounded : ∀ id, Bounded now (pruneTrailingOccurrences s now).2 id) :
    ∃ given, Fitted intl now (pruneTrailingOccurrences s now).2 given := by
  obtain ⟨given,is,all⟩ := keptGiven kept
  refine ⟨given,is,fun id row found => (all id row found).1,fun id row found => (all id row found).2,
    fun id row x e found there series => ?_⟩
  obtain ⟨o,slot,-⟩ := Option.map_eq_some_iff.mp there
  refine ⟨(prunedFewer slot).2 row found ?_,fun marker through => (bounded id row marker found through).2 x e there⟩
  rw [(is id row found).1]
  simpa using series

theorem fittedViews (fitted : Fitted intl now s given) (q : RangeQuery) :
    ∃ views, s.listVisibleInRange intl q = .ok views := by
  refine mapMReturns (fun pair mem => ?_)
  obtain ⟨o,there,is⟩ := List.mem_filterMap.mp mem
  obtain ⟨row,found,rfl⟩ := Option.map_eq_some_iff.mp is
  have held := (List.mem_filter.mp ((List.mem_insertionSort _).mp there)).1
  have slot : s.endAt o.eventId o.startsAt = some o.endsAt :=
    congrArg (Option.map EventOccurrence.endsAt) (Occurrences.slotSource.mpr ⟨held,rfl,rfl⟩)
  exact hasView (fitted.dated _ row found)
    (rowReady (fitted.fits _ row found) (fitted.current _ row _ _ found slot) slot).1

theorem fittedComplete (fitted : Fitted intl now s given)
    (accepted : checkRange (some start) (some stop) = .ok (start,stop)) : Complete intl given s r start stop ↔
      ∀ id row x ends, Owed intl given s r start stop id row x ends → Ready intl now row x (given id) := by
  constructor
  · rintro ⟨views,next,ok,shown⟩ id row x ends owed
    obtain ⟨v,mem,rfl,rfl,rfl⟩ := shown id row x ends owed
    obtain ⟨o,there,-,row',found,viewed⟩ := (memViews ((rangeListed accepted).mp ⟨next,ok⟩)).mp mem
    obtain ⟨-,event,startsAt,-⟩ := viewFields viewed
    have slot : s.endAt v.eventId v.startsAt = some o.endsAt :=
      congrArg (Option.map EventOccurrence.endsAt) (Occurrences.slotSource.mpr ⟨there,event.symm,startsAt.symm⟩)
    exact (rowReady (fitted.fits _ row owed.found) (fitted.current _ row _ _ owed.found slot) slot).2
  · intro ready
    obtain ⟨views,listed⟩ := fittedViews fitted ⟨start,stop,r.visibility.visible⟩
    obtain ⟨next,ok⟩ := (rangeListed accepted).mpr listed
    refine ⟨views,next,ok,fun id row x ends owed => ?_⟩
    have is := ready id row x ends owed
    obtain ⟨e,rfl,there⟩ := readyRow (fitted.dated id row owed.found) (fitted.fits id row owed.found) owed.has is
    obtain ⟨o,slot,rfl⟩ := Option.map_eq_some_iff.mp there
    obtain ⟨mem,rfl,rfl⟩ := Store.slotOwn slot
    have selected : s.selects ⟨start,stop,r.visibility.visible⟩ o = true := by
      refine selectsSource.mpr ⟨?_,owed.visible⟩
      simp only [RangeQuery.overlaps,Bool.and_eq_true,Bool.or_eq_true,decide_eq_true_eq]
      refine ⟨owed.overlaps.1,owed.overlaps.2.symm.imp_left ?_⟩
      rintro ⟨_,⟨⟩,after⟩
      exact after
    obtain ⟨v,viewed⟩ := @hasView intl row _ _ o (s.participantsOf o.eventId) (fitted.dated _ row owed.found) owed.has
    obtain ⟨-,event,startsAt,endsAt,-⟩ := viewFields viewed
    exact ⟨v,(memViews listed).mpr ⟨o,mem,selected,row,owed.found,viewed⟩,event,startsAt,congrArg some endsAt⟩

end

def Reaching (now : Instant) (s : Store) (id : CalendarEventId) : Prop :=
  ∀ row marker, s.events.find id = some row → row.status = .confirmed → row.recurrenceRule.isSome →
    row.materialisedThrough = some marker → (materialisationWindow now).stop ≤ marker

def GotThrough (intl : Intl) (steps : List Step) (ids : List CalendarEventId) (now : Instant)
    (id : CalendarEventId) : Prop :=
  ∃ done rest outcome next, ids = done ++ id :: rest ∧
    materialiseHorizon intl (afterSteps intl (steps ++ done.map (.materialise now))) now id = .ok (.ok outcome,next)

section
variable {intl : Intl} {s next : Store} {id other : CalendarEventId} {event : CalendarEvent} {row : EventRow}
  {since now : Instant} {steps : List Step} {ids : List CalendarEventId}

theorem lockedRow {held : Option CalendarEvent} (locked : s.lockById id = .ok held)
    (found : s.events.find id = some row) : ∃ event, held = some event ∧ event.status = row.status := by
  unfold Store.lockById Store.findById at locked
  rw [found] at locked
  cases read : toAggregate row (s.participantsOf id) with
  | error e =>
    simp only [read] at locked
    cases locked
  | ok aggregate =>
    simp only [read] at locked
    cases locked
    obtain ⟨rule,-,read⟩ := bindSource read
    cases read
    exact ⟨_,rfl,rfl⟩

theorem loadedColumns (load : Loaded intl since s other event) (found : s.events.find other = some row) :
    row.recurrenceRule.isSome = event.recurrenceRule.isSome ∧ row.materialisedThrough = event.materialisedThrough := by
  have is := load.columns
  rw [found,Option.map_some,Option.some.injEq] at is
  simp only [EventRow.schedule,CalendarEvent.schedule,Prod.mk.injEq] at is
  exact ⟨by rw [is.2.2.1,Option.isSome_map],is.2.2.2⟩

/- An event that is filled keeps the rows of every other, and is marked as far as the window. -/
theorem filledReaching {filled pruned saved : Store} {done : Rematerialised} {marked : CalendarEvent}
    (load : Loaded intl since s other event) (filling : rematerialise intl s event now = .ok (.ok (done,marked,filled)))
    
    (saving : pruned.save marked = .ok saved) (events : pruned.events = filled.events) :
    (∀ id, Reaching now s id → Reaching now saved id) ∧ Reaching now saved other := by
  obtain ⟨beside,through,rfl,-,stops⟩ := rematerialised load.dated filling
  have datedMarked : (event.recordMaterialisedThrough through).timing.Dated := load.dated
  obtain ⟨-,others,here⟩ := savedColumns datedMarked saving
  have reaching : Reaching now saved other := by
    intro row marker there _ _ is
    change (saved.events.find event.id).map EventRow.schedule = _ at here
    rw [load.own,there,Option.map_some,Option.some.injEq] at here
    simp only [EventRow.schedule,CalendarEvent.schedule,Prod.mk.injEq] at here
    exact (stops marker (here.2.2.2.symm.trans is)).1.ge
  refine ⟨fun id before => ?_,reaching⟩
  by_cases own : id = other
  · exact own ▸ reaching
  · intro row marker there
    have same : saved.events.find id = s.events.find id :=
      (others id (fun is => own (is.trans load.own))).trans (by rw [events,beside.events])
    exact before row marker (same.symm.trans there)

theorem materialiseReaching {result : Result MaterialiseHorizonOutcome} (kept : Kept intl since s other)
    (ok : materialiseHorizon intl s now other = .ok (result,next)) :
    (∀ id, Reaching now s id → Reaching now next id) ∧
      ((∃ outcome, result = .ok outcome) → Reaching now next other) := by
  obtain ⟨found,locked,worked⟩ := bindSource ok
  cases found with
  | none =>
    cases worked
    refine ⟨fun _ same => same,fun _ row marker there => ?_⟩
    obtain ⟨_,is,-⟩ := lockedRow locked there
    cases is
  | some event =>
    have load := loaded kept locked
    simp only at worked
    split at worked
    · -- It has no rule, or is cancelled.
      rename_i skips
      cases worked
      refine ⟨fun _ same => same,fun _ row marker there confirmed series through => ?_⟩
      obtain ⟨_,⟨⟩,status⟩ := lockedRow locked there
      rw [(loadedColumns load there).1] at series
      simp [CalendarEvent.isRecurring,CalendarEvent.isCancelled,series,status,confirmed] at skips
    split at worked
    · rename_i far
      cases worked
      refine ⟨fun _ same => same,fun _ row marker there _ _ through => ?_⟩
      rw [← (loadedColumns load there).2,through] at far
      simpa using far
    obtain ⟨filling,filled,worked⟩ := bindSource worked
    cases filling with
    | error e =>
      cases worked
      exact ⟨fun _ same => same,by rintro ⟨_,⟨⟩⟩⟩
    | ok filling =>
      obtain ⟨done,marked,filledStore⟩ := filling
      obtain ⟨saved,saving,worked⟩ := bindSource worked
      cases worked
      obtain ⟨others,own⟩ := filledReaching load filled saving rfl
      exact ⟨others,fun _ => own⟩

theorem sweepsKept (kept : ∀ id, Kept intl (materialisationWindow now).start s id) (id : CalendarEventId) :
    Kept intl (materialisationWindow now).start ((ids.map (.materialise now)).foldl (Step.apply intl) s) id := by
  induction ids generalizing s with
  | nil => exact kept id
  | cons first rest ih => exact ih (@stepKept intl s _ (.materialise now first) kept trivial (le_refl _))

theorem sweepsReaching (kept : ∀ id, Kept intl (materialisationWindow now).start s id) (reaching : Reaching now s id) :
    Reaching now ((ids.map (.materialise now)).foldl (Step.apply intl) s) id := by
  induction ids generalizing s with
  | nil => exact reaching
  | cons first rest ih =>
    refine ih (@stepKept intl s _ (.materialise now first) kept trivial (le_refl _)) ?_
    change Reaching now (committed s (materialiseHorizon intl s now first)) id
    cases ok : materialiseHorizon intl s now first with
    | error e => exact reaching
    | ok outcome => exact (materialiseReaching (kept first) ok).1 id reaching

theorem keptBefore (clock : (steps.map Step.now ++ [now]).Pairwise (· ≤ ·)) (dated : ∀ step ∈ steps, step.Dated)
    (id : CalendarEventId) : Kept intl (materialisationWindow now).start (afterSteps intl steps) id := by
  obtain ⟨earlier,-,between⟩ := List.pairwise_append.mp clock
  cases latest : (steps.map Step.now).getLast? with
  | none =>
    obtain rfl := List.map_eq_nil_iff.mp (List.getLast?_eq_none_iff.mp latest)
    exact emptyKept id
  | some last =>
    exact (afterKept earlier dated latest id).mono
      (windowMono (between last (List.mem_of_getLast? latest) now List.mem_cons_self)) .refl

theorem sweptReaching (kept : ∀ id, Kept intl (materialisationWindow now).start (afterSteps intl steps) id)
    (through : GotThrough intl steps ids now id) :
    Reaching now (afterSteps intl (steps ++ ids.map (.materialise now))) id := by
  obtain ⟨done,rest,outcome,next,rfl,ok⟩ := through
  have keptDone : ∀ id, Kept intl (materialisationWindow now).start
      (afterSteps intl (steps ++ done.map (.materialise now))) id := by
    rw [afterSteps,List.foldl_append]
    exact sweepsKept kept
  have after : afterSteps intl (steps ++ (done ++ id :: rest).map (.materialise now)) =
      (rest.map (.materialise now)).foldl (Step.apply intl) next := by
    rw [List.map_append,← List.append_assoc,afterSteps,List.foldl_append,List.map_cons,List.foldl_cons]
    refine congrArg (fun s => List.foldl (Step.apply intl) s _) ?_
    change committed _ (materialiseHorizon intl (afterSteps intl (steps ++ done.map (.materialise now))) now id) = next
    rw [ok]
    rfl
  rw [after]
  have keptNext : ∀ other, Kept intl (materialisationWindow now).start next other := fun other =>
    movesKept (materialiseEffect (keptDone id) ok).moves (keptDone other) (le_refl _)
  exact sweepsReaching keptNext ((materialiseReaching (keptDone id) ok).2 ⟨outcome,rfl⟩)

end

def MarkersReach (now : Instant) (s : Store) (through : CalendarEventId → Prop) : Prop :=
  ∀ id row marker, s.events.find id = some row → row.materialisedThrough = some marker →
    marker ≤ (materialisationWindow now).stop ∧ (through id → row.status = .confirmed → row.recurrenceRule.isSome →
      marker = (materialisationWindow now).stop)

/-- Where the sweeps have run at a moment, at the end of any run, a range that is accepted is complete if and only if
each occurrence that it owes of a series starts between the trailing edge and the marker, in a period that an expansion
goes through. -/
theorem rangesReach (intl : Intl) {steps : List Step} {ids : List CalendarEventId} {now : Instant}
    (clock : ((steps ++ sweepSteps ids now).map Step.now).Pairwise (· ≤ ·)) (dated : ∀ step ∈ steps, step.Dated) :
    ∃ given, Given (afterSweeps intl steps ids now) given ∧
      MarkersReach now (afterSweeps intl steps ids now) (GotThrough intl steps ids now) ∧
      ∀ r start stop, checkRange (some start) (some stop) = .ok (start,stop) →
        (Complete intl given (afterSweeps intl steps ids now) r start stop ↔
          ∀ id row x ends, Owed intl given (afterSweeps intl steps ids now) r start stop id row x ends →
            Ready intl now row x (given id)) := by
  have every := sweepsDated ids now dated
  have before : (steps.map Step.now ++ [now]).Pairwise (· ≤ ·) := by
    refine clock.sublist ?_
    rw [List.map_append,sweepSteps,List.map_append]
    exact (List.Sublist.refl _).append (List.sublist_append_right _ _)
  have kept : ∀ id, Kept intl (materialisationWindow now).start (afterSweeps intl steps ids now) id :=
    afterKept clock every sweepsLatest
  have bounded : ∀ id, Bounded now (afterSweeps intl steps ids now) id := afterBounded clock every sweepsLatest
  rw [sweepsPruned] at kept bounded ⊢
  obtain ⟨given,fitted⟩ := prunedFitted kept bounded
  refine ⟨given,fitted.rules,fun id row marker found is => ?_,
    fun r start stop accepted => fittedComplete fitted accepted⟩
  have below := (bounded id row marker found is).1
  exact ⟨below,fun through confirmed series =>
    le_antisymm below (sweptReaching (keptBefore before dated) through row marker found confirmed series is)⟩

def everyYearSteps : List Step := [.create parent 5 (appointment (some "FREQ=YEARLY"))]

theorem everyYearDated : ∀ step ∈ everyYearSteps, step.Dated := by
  intro step mem
  rw [List.mem_singleton.mp mem]
  rintro i ⟨⟩
  exact ⟨by decide,by decide⟩

def everyYearStore : Store := afterSweeps everywhereUtc everyYearSteps [5] 1000

theorem everyYearReaches : (∃ given, Given everyYearStore given ∧
      MarkersReach 1000 everyYearStore (GotThrough everywhereUtc everyYearSteps [5] 1000) ∧
      ∀ r start stop, checkRange (some start) (some stop) = .ok (start,stop) →
        (Complete everywhereUtc given everyYearStore r start stop ↔
          ∀ id row x ends, Owed everywhereUtc given everyYearStore r start stop id row x ends →
            Ready everywhereUtc 1000 row x (given id))) ∧
    (everyYearStore.listVisibleInRange everywhereUtc ⟨0,34560000000,[1,2,7]⟩).map (List.map OccurrenceView.startsAt) =
      .ok [3600000,31539600000] :=
  ⟨@rangesReach everywhereUtc everyYearSteps [5] 1000 (by decide) everyYearDated,by decide +kernel⟩

/- Of the appointment of 1973 nothing is told. -/
theorem everyYearOutrun : ¬ ∀ (intl : Intl) (steps : List Step) (ids : List CalendarEventId) (now : Instant),
    ((steps ++ sweepSteps ids now).map Step.now).Pairwise (· ≤ ·) → (∀ step ∈ steps, step.Dated) →
      ∀ given, Given (afterSweeps intl steps ids now) given → ∀ r start stop,
        checkRange (some start) (some stop) = .ok (start,stop) →
          Complete intl given (afterSweeps intl steps ids now) r start stop := by
  intro all
  have kept := @afterKept everywhereUtc (everyYearSteps ++ sweepSteps [5] 1000) 1000 (by decide)
    (sweepsDated [5] 1000 everyYearDated) rfl
  obtain ⟨given,rules,-⟩ := keptGiven kept
  obtain ⟨views,next,ok,shown⟩ := all everywhereUtc everyYearSteps [5] 1000 (by decide) everyYearDated given rules
    parent 94694400000 94780800000 (by decide)
  have listed := (rangeListed (by decide)).mp ⟨next,ok⟩
  have none_ : everyYearStore.listVisibleInRange everywhereUtc
      ⟨94694400000,94780800000,parent.visibility.visible⟩ = .ok [] := by decide +kernel
  cases none_.symm.trans listed
  obtain ⟨row,found,columns⟩ := Option.map_eq_some_iff.mp (show (everyYearStore.events.find 5).map (fun row =>
    (row.recurrenceRule,row.timing,row.status)) = some (some "FREQ=YEARLY",.timed 3600000 7200000,.confirmed)
    by decide +kernel)
  simp only [Prod.mk.injEq] at columns
  obtain ⟨text,timing,confirmed⟩ := columns
  have rule : given 5 = some everyYear := (rules 5 row found).2 _ everyYear text (by decide +kernel)
  obtain ⟨v,mem,-⟩ := shown 5 row 94698000000 (some 94701600000)
    ⟨found,confirmed,by decide +kernel,by
      rw [rule,Has,timing]
      exact ⟨.utc,⟨⟨1970,1,1⟩,1,0,0⟩,⟨⟨⟨1973,1,1⟩,1,0,0⟩,94698000000⟩,rfl,by decide +kernel,
        ⟨⟨0,100000000000⟩,4,by decide +kernel⟩,rfl,by decide +kernel⟩,by decide,.inl (by decide)⟩
  cases mem

end FamilyPlatform.Calendar
