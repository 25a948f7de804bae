import FamilyPlatform.Calendar.Hidden
import FamilyPlatform.Calendar.Kept

/-! Every run of commands and sweeps under a clock that does not go back leaves each event exactly the rows that it
should have. -/
namespace FamilyPlatform.Calendar
open ZonedTime Civil Recurrence RecurrenceRule

inductive Step where
  | create (r : Request) (eventId : CalendarEventId) (params : NewEvent)
  | update (r : Request) (eventId : CalendarEventId) (patch : EventPatch)
  | cancel (r : Request) (eventId : CalendarEventId)
  | cancelOccurrence (r : Request) (eventId : CalendarEventId) (occurrenceId : EventOccurrenceId)
  | materialise (now : Instant) (eventId : CalendarEventId)
  | prune (now : Instant)
  deriving DecidableEq, Repr

def committed {α : Type} (s : Store) : Except Thrown (Outcome α) → Store
  | .ok (_, next) => next
  | .error _ => s

namespace Step

def now : Step → Instant
  | create r _ _ | update r _ _ | cancel r _ | cancelOccurrence r _ _ => r.now
  | materialise now _ | prune now => now

def Dated : Step → Prop
  | create _ _ params => params.timing.Dated
  | update _ _ patch => ∀ timing, patch.timing = some timing → timing.Dated
  | _ => True

def apply (intl : Intl) (s : Store) : Step → Store
  | create r id params => committed s (createEvent intl s r id params)
  | update r id patch => committed s (updateEvent intl s r id patch)
  | cancel r id => committed s (cancelEvent s r id)
  | cancelOccurrence r id occurrenceId => committed s (Calendar.cancelOccurrence s r id occurrenceId)
  | materialise now id => committed s (materialiseHorizon intl s now id)
  | prune now => (pruneTrailingOccurrences s now).2

end Step

def afterSteps (intl : Intl) (steps : List Step) : Store := steps.foldl (Step.apply intl) .empty

theorem afterStep (intl : Intl) (step : Step) : afterSteps intl [step] = step.apply intl .empty := rfl

section
variable {intl : Intl} {s : Store} {id : CalendarEventId} {since now : Instant} {step : Step} {steps : List Step}

theorem movesKept {next : Store} {other : CalendarEventId} (moves : Moves intl now other s next) (kept : Kept intl since s id)
    (le : since ≤ (materialisationWindow now).start) : Kept intl (materialisationWindow now).start next id := by
  by_cases own : id = other
  · subst own
    exact moves.2.elim (fun spares => kept.mono le spares) (fun settled => settled)
  · exact kept.mono le (moves.1 id own)

theorem committedKept {α : Type} {x : Except Thrown (Outcome α)} (kept : Kept intl since s id)
    (le : since ≤ (materialisationWindow now).start)
    (each : ∀ result next, x = .ok (result,next) → Kept intl (materialisationWindow now).start next id) :
    Kept intl (materialisationWindow now).start (committed s x) id := by
  cases x with
  | error e => exact kept.mono le .refl
  | ok outcome => exact each outcome.1 outcome.2 rfl

theorem stepKept (kept : ∀ id, Kept intl since s id) (dated : step.Dated)
    (le : since ≤ (materialisationWindow step.now).start) (id : CalendarEventId) :
    Kept intl (materialisationWindow step.now).start (step.apply intl s) id := by
  cases step with
  | create r other params =>
    exact committedKept (kept id) le (fun _ _ ok => movesKept (createEffect dated ok).moves (kept id) le)
  | update r other patch =>
    exact committedKept (kept id) le (fun _ _ ok => movesKept (updateEffect dated (kept other) ok).moves (kept id) le)
  | cancel r other =>
    exact committedKept (kept id) le (fun _ _ ok => movesKept (cancelEffect (kept other) ok).moves (kept id) le)
  | cancelOccurrence r other occurrenceId =>
    exact committedKept (kept id) le (fun _ _ ok => (kept id).mono le (cancelOccurrenceSpares ok))
  | materialise now other =>
    exact committedKept (kept id) le (fun _ _ ok => movesKept (materialiseEffect (kept other) ok).moves (kept id) le)
  | prune now => exact prunedKept (kept id) le

theorem windowMono {now' : Instant} (le : now ≤ now') :
    (materialisationWindow now).start ≤ (materialisationWindow now').start := Int.sub_le_sub_right le _

theorem runKept (clock : (now :: steps.map Step.now).Pairwise (· ≤ ·)) (dated : ∀ step ∈ steps, step.Dated)
    (kept : ∀ id, Kept intl (materialisationWindow now).start s id) (id : CalendarEventId) :
    Kept intl (materialisationWindow ((steps.map Step.now).getLastD now)).start (steps.foldl (Step.apply intl) s) id := by
  induction steps generalizing s now with
  | nil => exact kept id
  | cons step rest ih =>
    obtain ⟨first,later⟩ := List.pairwise_cons.mp clock
    have le := first step.now List.mem_cons_self
    rw [List.map_cons,List.getLastD_cons]
    exact ih later (fun other mem => dated other (List.mem_cons_of_mem step mem))
      (stepKept kept (dated step List.mem_cons_self) (windowMono le))

def Store.rowsOf (s : Store) (id : CalendarEventId) : List EventOccurrence :=
  s.occurrences.rows.filter (fun o => o.eventId = id)

def Store.rowsAt (s : Store) (id : CalendarEventId) (x : Instant) : List EventOccurrence :=
  (s.rowsOf id).filter (fun o => o.startsAt = x)

theorem memRowsAt {x : Instant} {o : EventOccurrence} : o ∈ s.rowsAt id x ↔ s.slot id x = some o := by
  simp only [Store.rowsAt,Store.rowsOf,List.mem_filter,decide_eq_true_eq,Store.slot,Occurrences.slotSource,and_assoc]

theorem oneRow {rows : List EventOccurrence} {o : EventOccurrence} (distinct : rows.Nodup)
    (source : ∀ o', o' ∈ rows ↔ o' = o) : rows = [o] :=
  List.perm_singleton.mp ((List.perm_ext_iff_of_nodup distinct (List.nodup_singleton o)).mpr
    (fun o' => (source o').trans List.mem_singleton.symm))

theorem rowsAtSlot (x : Instant) : s.rowsAt id x = (s.slot id x).toList := by
  cases found : s.slot id x with
  | none =>
    refine List.eq_nil_iff_forall_not_mem.mpr (fun o mem => ?_)
    rw [memRowsAt,found] at mem
    cases mem
  | some o =>
    refine oneRow ((s.occurrences.rowsNodup.filter _).filter _) (fun o' => ?_)
    rw [memRowsAt,found,Option.some.injEq,eq_comm]

end

/- Of a confirmed event there are the occurrences of its rule from an instant on and up to the marker, each with its
row, or the one row if it has no rule. -/
def Covers (occurs : RecurrenceRule → LocalDateTime → Zone → ExpandedOccurrence → Prop) (intl : Intl) (since : Instant)
    (s : Store) (id : CalendarEventId) : Prop :=
  ∀ row, s.events.find id = some row → row.status = .confirmed → match row.recurrenceRule with
    | none => ∃ o, planOneOff intl row.timeZone row.timing = some ⟨o.startsAt,some o.endsAt⟩ ∧ s.rowsOf id = [o]
    | some text => ∃ rule zone dtstart, rule.toText = text ∧ (∀ read, parse text = .ok read → read = rule) ∧
      intl row.timeZone = some zone ∧ dtstartOf zone row.timing = some dtstart ∧
      ∀ x, since ≤ x → (∀ marker, row.materialisedThrough = some marker → x < marker) →
        (∀ y, occurs rule dtstart zone y → y.instant = x → ∃ o, s.rowsAt id x = [o] ∧
          planOccurrence zone row.timing y = some ⟨x,some o.endsAt⟩) ∧
        ((∀ y, occurs rule dtstart zone y → y.instant ≠ x) → s.rowsAt id x = [])

theorem keptCovers {intl : Intl} {since : Instant} {s : Store} {id : CalendarEventId} (kept : Kept intl since s id) :
    Covers Scheduled intl since s id := by
  intro row found _
  obtain ⟨dated,rule,exact_,written,fits⟩ := kept row found
  cases rule with
  | none =>
    rw [written,Option.map_none]
    obtain ⟨p,planned,given,all⟩ := fits
    have here := all p.startsAt
    rw [if_pos rfl] at here
    obtain ⟨endsAt,is⟩ := Option.isSome_iff_exists.mp given
    obtain ⟨o,slot,ends⟩ := Option.map_eq_some_iff.mp (here.trans is)
    obtain ⟨mem,own,start⟩ := Store.slotOwn slot
    refine ⟨o,planned.trans (congrArg some ?_),oneRow (s.occurrences.rowsNodup.filter _) (fun o' => ?_)⟩
    · rw [start,ends,← is]
    · rw [Store.rowsOf,List.mem_filter,decide_eq_true_eq]
      constructor
      · rintro ⟨there,rfl⟩
        have slot' : s.slot o'.eventId o'.startsAt = some o' := Occurrences.slotSource.mpr ⟨there,rfl,rfl⟩
        have ends' := all o'.startsAt
        rw [Store.endAt,slot'] at ends'
        split at ends'
        · rename_i same
          rw [← same,slot] at slot'
          exact (Option.some.inj slot').symm
        · cases ends'
      · rintro rfl
        exact ⟨mem,own⟩
  | some rule =>
    rw [written,Option.map_some]
    obtain ⟨zone,dtstart,named,read,all⟩ := fits
    refine ⟨rule,zone,dtstart,rfl,fun other again => parseAgain (exact_ rule rfl) again,named,read,fun x above below => ?_⟩
    obtain ⟨complete,sound⟩ := all x above below
    refine ⟨fun y scheduled here => ?_,fun none_ => ?_⟩
    · obtain ⟨e,planned,ends⟩ := complete y scheduled here
      obtain ⟨o,slot,is⟩ := Option.map_eq_some_iff.mp ends
      exact ⟨o,by rw [rowsAtSlot,slot]; rfl,is ▸ planned⟩
    · rw [rowsAtSlot]
      cases slot : s.slot id x with
      | none => rfl
      | some o =>
        obtain ⟨y,scheduled,planned⟩ := sound o.endsAt (by rw [Store.endAt,slot]; rfl)
        exact absurd (plannedStart planned).symm (none_ y scheduled)

theorem clockStarts {times : List Instant} {now : Instant} (clock : times.Pairwise (· ≤ ·))
    (latest : times.getLast? = some now) : ∃ first, (first :: times).Pairwise (· ≤ ·) ∧ times.getLastD first = now := by
  cases times with
  | nil => cases latest
  | cons first rest =>
    refine ⟨first,List.pairwise_cons.mpr ⟨fun other mem => ?_,clock⟩,by rw [List.getLastD_eq_getLast?,latest]; rfl⟩
    rcases List.mem_cons.mp mem with rfl | later
    · exact le_refl _
    · exact (List.pairwise_cons.mp clock).1 other later

theorem emptyKept {intl : Intl} {since : Instant} (id : CalendarEventId) : Kept intl since .empty id :=
  fun row found => by cases found

theorem afterKept {intl : Intl} {steps : List Step} {now : Instant} (clock : (steps.map Step.now).Pairwise (· ≤ ·))
    (dated : ∀ step ∈ steps, step.Dated) (latest : (steps.map Step.now).getLast? = some now) (id : CalendarEventId) :
    Kept intl (materialisationWindow now).start (afterSteps intl steps) id := by
  obtain ⟨first,starts,last⟩ := clockStarts clock latest
  exact last ▸ runKept starts dated emptyKept id

/-- After every step of every run, under a clock that does not go back, a confirmed event has exactly the rows that its
rule, timing and zone produce from the trailing edge on, up to its marker, or if that is null all of them; and one
without a rule has exactly one. -/
theorem runCovers (intl : Intl) {steps : List Step} {now : Instant} (clock : (steps.map Step.now).Pairwise (· ≤ ·))
    (dated : ∀ step ∈ steps, step.Dated) (latest : (steps.map Step.now).getLast? = some now) (id : CalendarEventId) :
    Covers Scheduled intl (materialisationWindow now).start (afterSteps intl steps) id :=
  keptCovers (afterKept clock dated latest id)

def appointmentSteps : List Step := [.create parent 5 (appointment (some "FREQ=YEARLY;COUNT=3")),
  .materialise 34560000000 5,.prune 69120000000]

theorem appointmentCovered :
    Covers Scheduled everywhereUtc 34560000000 (afterSteps everywhereUtc appointmentSteps) 5 ∧
      ((afterSteps everywhereUtc appointmentSteps).rowsOf 5).map EventOccurrence.startsAt = [63075600000] := by
  refine ⟨@runCovers everywhereUtc appointmentSteps 69120000000 (by decide) (fun step mem => ?_) rfl 5,by decide +kernel⟩
  simp only [appointmentSteps,List.mem_cons,List.not_mem_nil,or_false] at mem
  rcases mem with rfl | rfl | rfl
  · rintro i ⟨⟩
    exact ⟨by decide,by decide⟩
  · trivial
  · trivial

section
variable {intl : Intl} {s : Store} {event : CalendarEvent}

theorem saveEntered (dated : event.timing.Dated) (ordered : inOrder event.timing = true)
    (named : event.timeZone.toList.all (· = ' ') = false) : ∃ next row, s.save event = .ok next ∧
      next.events.find event.id = some row ∧ row.schedule = event.schedule ∧ row.status = event.status := by
  have saved : ∃ next, s.save event = .ok next := by
    simp only [Store.save,rowOf,dbTimingDated dated,bind,Except.bind,pure,Except.pure,permitEvent,ordered,named,
      Bool.not_true,Bool.false_eq_true,if_false]
    exact ⟨_,rfl⟩
  obtain ⟨next,saved⟩ := saved
  have ok := saved
  obtain ⟨row,is,ok⟩ := bindSource ok
  obtain ⟨_,-,ok⟩ := bindSource ok
  cases ok
  rw [rowOf,dbTimingDated dated] at is
  obtain rfl := Except.ok.inj is
  refine ⟨_,_,saved,by rw [Store.writeEvent,Table.findUpsert,if_pos rfl],?_⟩
  cases s.events.find event.id <;> exact ⟨rfl,rfl⟩

theorem createEntered {params : NewEvent} {r : Request} {id : CalendarEventId} {plan : OccurrencePlan}
    (created : CalendarEvent.create intl params id r.reader.memberId r.now = .ok event) (dated : event.timing.Dated)
    (ordered : inOrder event.timing = true) (named : event.timeZone.toList.all (· = ' ') = false)
    (alone : event.participants = []) (planned : planOccurrences intl event (materialisationWindow r.now) = some (.ok plan))
    (none_ : plan.planned = []) : ∃ row, (Step.apply intl s (.create r id params)).events.find id = some row ∧
      row.schedule = (event.recordMaterialisedThrough plan.materialisedThrough).schedule ∧ row.status = event.status := by
  obtain ⟨rfl,-⟩ := createdSource created
  obtain ⟨inserted,_,saved,-⟩ := @saveEntered s event dated ordered named
  obtain ⟨joined,replaced⟩ : ∃ joined, inserted.replaceForEvent r.familyMembers r.transactionTime event.id [] = .ok joined := by
    simp [Store.replaceForEvent]
  obtain ⟨counts,filled,applied⟩ : ∃ counts filled, joined.applyPlan event.id
      (reconcile [] (joined.listForEvent event.id plan.scopeFrom)) = .ok (counts,filled) := ⟨_,_,rfl⟩
  obtain ⟨last,row,savedAgain,found,columns,status⟩ := @saveEntered filled
    (event.recordMaterialisedThrough plan.materialisedThrough) dated ordered named
  refine ⟨row,?_,columns,status⟩
  simp only [Step.apply,createEvent,created,saved,replaceParticipants,alone,replaced,rematerialise,planned,orThrow,none_,
    applied,savedAgain,bind,Except.bind,pure,Except.pure,committed]
  unfold publishMaterialised
  split <;> exact found

end

theorem coversApart {intl : Intl} {since : Instant} {next : Store} {id : CalendarEventId} {row : EventRow} {zone : Zone}
    {rule : RecurrenceRule} {dtstart : LocalDateTime} {y : ExpandedOccurrence} (found : next.events.find id = some row)
    (confirmed : row.status = .confirmed) (text : row.recurrenceRule = some rule.toText)
    (again : parse rule.toText = .ok rule) (named : intl row.timeZone = some zone)
    (read : dtstartOf zone row.timing = some dtstart) (above : since ≤ y.instant)
    (below : ∀ marker, row.materialisedThrough = some marker → y.instant < marker) (produced : Produces rule dtstart zone y)
    (none_ : ∀ z, Scheduled rule dtstart zone z → z.instant ≠ y.instant)
    (scheduled : Covers Scheduled intl since next id) : ¬ Covers Produces intl since next id := by
  intro covers
  have owed := covers row found confirmed
  have there := scheduled row found confirmed
  rw [text] at owed there
  obtain ⟨other,_,_,-,isRule,isZone,isStart,rows⟩ := owed
  obtain ⟨other',_,_,-,isRule',isZone',isStart',rows'⟩ := there
  obtain rfl := isRule _ again
  obtain rfl := isRule' _ again
  cases named.symm.trans isZone
  cases named.symm.trans isZone'
  cases read.symm.trans isStart
  cases read.symm.trans isStart'
  obtain ⟨o,is,-⟩ := (rows y.instant above below).1 y produced rfl
  cases is.symm.trans ((rows' y.instant above below).2 none_)

theorem seriesNothing {intl : Intl} {event : CalendarEvent} {zone : Zone} {rule : RecurrenceRule} {window : Window}
    {dtstart : LocalDateTime} {e : Expansion} (ruled : event.recurrenceRule = some rule)
    (named : intl event.timeZone = some zone) (read : dtstartOf zone event.timing = some dtstart)
    (expanded : expand (expansionOf rule dtstart zone window) = some (.ok e)) (none_ : e.occurrences = []) :
    planOccurrences intl event window =
      some (.ok ⟨[],if e.exhausted then none else some window.stop,some window.start⟩) := by
  simp only [planOccurrences,ruled,named,planSeries,read,expanded,none_,List.mapM_nil,bind,Option.bind_some,pure]

def foundingDay : NewEvent where
  title := "Founding day"
  description := none
  location := none
  category := none
  timing := .allDay ⟨1400,1,1⟩ ⟨1400,1,1⟩
  timeZone := "UTC"
  recurrenceRule := some "FREQ=DAILY;COUNT=300000"
  participants := []
  attachmentRefs := []

def everyFoundingDay : RecurrenceRule where
  freq := .daily
  interval := .finite 1
  count := some (.finite 300000)
  «until» := none
  byDay := []
  byMonthDay := []
  byMonth := []
  wkst := .mo
  parsed := by constructor <;> simp [JsNumber.atLeastOne]

def inNewYear : Request := { parent with now := 1767225600000 }

def founded : CalendarEvent where
  id := 0
  title := "Founding day"
  description := none
  location := none
  category := none
  timing := .allDay ⟨1400,1,1⟩ ⟨1400,1,1⟩
  timeZone := "UTC"
  recurrenceRule := some everyFoundingDay
  attachmentRefs := []
  status := .confirmed
  participants := []
  materialisedThrough := none
  createdByMemberId := some 1
  createdAt := 1767225600000
  updatedAt := 1767225600000

theorem foundedCreated : CalendarEvent.create everywhereUtc foundingDay 0 1 1767225600000 = .ok founded := by
  decide +kernel

def foundingSearch : NextOccurrenceInput := ⟨everyFoundingDay,⟨⟨1400,1,1⟩,0,0,0⟩,.utc,0⟩

def june : ExpandedOccurrence := ⟨⟨⟨2026,6,1⟩,0,0,0⟩,1780272000000⟩

theorem foundingStart : StartDay foundingSearch.dtstart.toDate ∧ LocalDateTime.Clock foundingSearch.dtstart :=
  ⟨⟨by decide,by decide,by decide⟩,by decide⟩

theorem juneProduced : Produces everyFoundingDay ⟨⟨1400,1,1⟩,0,0,0⟩ .utc june := by
  refine @countedProduces (foundingSearch.of ⟨0,0⟩) 228793 300000 june rfl rfl rfl (by decide) ?_
  decide +kernel

theorem foundingUnreached {x : ExpandedOccurrence} (visited : Visited foundingSearch x) :
    x.instant < (materialisationWindow 1767225600000).start :=
  @countedBefore foundingSearch (materialisationWindow 1767225600000) foundingStart.1 foundingStart.2 rfl rfl rfl
    ⟨⟨2024,11,27⟩,0,0,0⟩ (by decide +kernel) (by decide +kernel) x visited

theorem foundingExpanded : ∃ e, expand (foundingSearch.of (materialisationWindow 1767225600000)) = some (.ok e) ∧
    e.occurrences = [] := by
  refine @countedUnreached foundingSearch (materialisationWindow 1767225600000) foundingStart.1 foundingStart.2 (by decide)
    (by decide) (fun _ visited => foundingUnreached visited) rfl 228793 (by decide) (some ⟨2026,6,1⟩) (by decide +kernel) ?_
  exact ⟨⟨2026,6,1⟩,rfl,.inr ⟨1780272000000,by decide +kernel⟩⟩

theorem foundingEntered : (Step.create inNewYear 0 foundingDay).Dated ∧
    ∃ row, (afterSteps everywhereUtc [.create inNewYear 0 foundingDay]).events.find 0 = some row ∧
      row.timing = founded.timing ∧ row.timeZone = "UTC" ∧ row.recurrenceRule = some everyFoundingDay.toText ∧
      row.status = .confirmed ∧ ∀ marker, row.materialisedThrough = some marker → june.instant < marker := by
  have dated : founded.timing.Dated := ⟨⟨by decide,by decide,by decide⟩,by decide,by decide,by decide⟩
  obtain ⟨e,expanded,none_⟩ := foundingExpanded
  have planned := @seriesNothing everywhereUtc founded .utc everyFoundingDay (materialisationWindow 1767225600000)
    ⟨⟨1400,1,1⟩,0,0,0⟩ e rfl rfl rfl expanded none_
  obtain ⟨row,found,columns,status⟩ := @createEntered everywhereUtc .empty founded foundingDay inNewYear 0 _ foundedCreated
    dated (by decide) (by decide) rfl planned rfl
  simp only [EventRow.schedule,CalendarEvent.schedule,Prod.mk.injEq] at columns
  obtain ⟨timing,timeZone,text,through⟩ := columns
  rw [afterStep]
  refine ⟨dated,row,found,timing,timeZone,text,status,fun marker is => ?_⟩
  rw [through] at is
  change (if e.exhausted then none else some (materialisationWindow 1767225600000).stop) = some marker at is
  split at is <;> cases is
  decide

/- It has no row at all: an expansion goes through the days up to 1947 and no further. -/
theorem foundingDayUncovered : ¬ ∀ (intl : Intl) (steps : List Step) (now : Instant),
    (steps.map Step.now).Pairwise (· ≤ ·) → (∀ step ∈ steps, step.Dated) → (steps.map Step.now).getLast? = some now →
      ∀ id, Covers Produces intl (materialisationWindow now).start (afterSteps intl steps) id := by
  intro all
  obtain ⟨dated,row,found,timing,timeZone,text,status,later⟩ := foundingEntered
  have covers := all everywhereUtc [.create inNewYear 0 foundingDay] 1767225600000 (by decide)
    (fun step mem => List.mem_singleton.mp mem ▸ dated) rfl 0
  have scheduled := keptCovers (@stepKept everywhereUtc .empty (materialisationWindow 1767225600000).start
    (.create inNewYear 0 foundingDay) (fun id row found => by cases found) dated (le_refl _) 0)
  rw [afterStep] at covers found
  refine coversApart found status text (by decide +kernel) (congrArg everywhereUtc timeZone)
    (congrArg (dtstartOf .utc) timing) (by decide) later juneProduced (fun y visited here => ?_) scheduled covers
  have before := foundingUnreached (scheduledVisited.mp visited)
  rw [here] at before
  exact absurd before (by decide)

end FamilyPlatform.Calendar
