import FamilyPlatform.Calendar.Alike
import FamilyPlatform.Calendar.Scheduled

/-! What a command or a sweep does to the occurrences of an event: it leaves them alone, or the event has afterwards
those that it should have from the trailing edge on. -/
namespace FamilyPlatform.Calendar
open ZonedTime Civil Recurrence RecurrenceRule

def TimingInput.Dated : TimingInput → Prop
  | .timed startsAt _ => ∀ i, startsAt = some i → DatedInstant i
  | .allDay startDate endDate => Calendar.Dated startDate ∧ Calendar.Dated endDate

structure TimingPatch.Dated (patch : TimingPatch) : Prop where
  startsAt : ∀ i, patch.startsAt = some (some i) → DatedInstant i
  startDate : ∀ d, patch.startDate = some d → Calendar.Dated d
  endDate : ∀ d, patch.endDate = some d → Calendar.Dated d

section
variable {input : TimingInput} {timing current : EventTiming} {patch : TimingPatch}

theorem validateDated (dated : input.Dated) (ok : validateTiming input = .ok timing) : timing.Dated := by
  unfold validateTiming at ok
  split at ok
  · split at ok <;> cases ok
    exact dated _ rfl
  · cases ok
  · split at ok <;> cases ok
    exact dated

theorem mergeTimedDated (currentDated : current.Dated) (dated : patch.Dated) (ok : mergeTimed current patch = .ok input) :
    input.Dated := by
  have either : ∀ {a b : Option (Option Instant)} {i : Instant}, a.or b = some (some i) → a = some (some i) ∨
      a = none ∧ b = some (some i) := by
    intro a b i is
    cases a with
    | none => exact .inr ⟨rfl,is⟩
    | some a => exact .inl is
  cases current with
  | timed startsAt endsAt =>
    simp only [mergeTimed] at ok
    split at ok
    · cases ok
    split at ok <;> cases ok
    rename_i first _ is _
    intro i there
    rcases either (is.trans (congrArg some there)) with asked | ⟨-,kept⟩
    · exact dated.startsAt i asked
    · cases kept
      exact currentDated
  | allDay startDate endDate =>
    simp only [mergeTimed] at ok
    split at ok
    · cases ok
    split at ok <;> cases ok
    rename_i first _ is _
    intro i there
    rcases either (is.trans (congrArg some there)) with asked | ⟨-,kept⟩
    · exact dated.startsAt i asked
    · cases kept

theorem mergeAllDayDated (currentDated : current.Dated) (dated : patch.Dated)
    (ok : mergeAllDay current patch = .ok input) : input.Dated := by
  cases current with
  | timed startsAt endsAt =>
    simp only [mergeAllDay] at ok
    split at ok
    · cases ok
    split at ok <;> cases ok
    rename_i first last isFirst isLast
    rw [Option.or_none] at isFirst isLast
    exact ⟨dated.startDate first isFirst,dated.endDate last isLast⟩
  | allDay startDate endDate =>
    simp only [mergeAllDay] at ok
    split at ok
    · cases ok
    split at ok <;> cases ok
    rename_i first last isFirst isLast
    constructor
    · cases asked : patch.startDate with
      | none =>
        rw [asked] at isFirst
        cases isFirst
        exact currentDated.1
      | some d =>
        rw [asked] at isFirst
        cases isFirst
        exact dated.startDate _ asked
    · cases asked : patch.endDate with
      | none =>
        rw [asked] at isLast
        cases isLast
        exact currentDated.2
      | some d =>
        rw [asked] at isLast
        cases isLast
        exact dated.endDate _ asked

theorem mergeDated (currentDated : current.Dated) (dated : patch.Dated) (ok : mergeTiming current patch = .ok input) :
    input.Dated := by
  unfold mergeTiming at ok
  split at ok
  · exact mergeTimedDated currentDated dated ok
  · exact mergeAllDayDated currentDated dated ok

end

theorem parseRuleExact {text : Option String} {found : Option RecurrenceRule} (read : parseRule text = .ok found)
    {rule : RecurrenceRule} (is : found = some rule) : Exact rule := by
  cases text with
  | none =>
    cases read
    cases is
  | some text =>
    simp only [parseRule] at read
    cases parsed : parse text with
    | error e =>
      rw [parsed] at read
      cases read
    | ok other =>
      rw [parsed] at read
      cases read
      cases is
      exact parseExact parsed

def EventRow.schedule (row : EventRow) : EventTiming × String × Option String × Option Instant :=
  (row.timing,row.timeZone,row.recurrenceRule,row.materialisedThrough)

def CalendarEvent.schedule (event : CalendarEvent) : EventTiming × String × Option String × Option Instant :=
  (event.timing,event.timeZone,event.recurrenceRule.map RecurrenceRule.toText,event.materialisedThrough)

def Store.Spares (id : CalendarEventId) (s next : Store) : Prop :=
  (next.events.find id).map EventRow.schedule = (s.events.find id).map EventRow.schedule ∧ next.endAt id = s.endAt id

structure Store.SameTables (s next : Store) : Prop where
  events : next.events = s.events
  occurrences : next.occurrences = s.occurrences

def Kept (intl : Intl) (since : Instant) (s : Store) (id : CalendarEventId) : Prop :=
  ∀ row, s.events.find id = some row → row.timing.Dated ∧ ∃ rule, (∀ r, rule = some r → Exact r) ∧
    row.recurrenceRule = rule.map RecurrenceRule.toText ∧
      Fits intl row.timing row.timeZone row.materialisedThrough since (s.endAt id) rule

section
variable {intl : Intl} {s mid next : Store} {id other : CalendarEventId} {event : CalendarEvent} {since now : Instant}
  {r : Request}

theorem Store.Spares.refl : Store.Spares id s s := ⟨rfl,rfl⟩

theorem Store.Spares.trans (first : Store.Spares id s mid) (second : Store.Spares id mid next) : Store.Spares id s next :=
  ⟨second.1.trans first.1,second.2.trans first.2⟩

theorem Store.Beside.spares (beside : Store.Beside id s next) (apart : other ≠ id) : Store.Spares other s next := by
  refine ⟨by rw [beside.events],funext (fun x => ?_)⟩
  rw [Store.endAt,Store.endAt,beside.others other x apart]

theorem Store.SameTables.spares (same : Store.SameTables s next) : Store.Spares id s next := by
  refine ⟨by rw [same.events],funext (fun x => ?_)⟩
  rw [Store.endAt,Store.endAt,Store.slot,Store.slot,same.occurrences]

theorem Kept.mono {since' : Instant} (kept : Kept intl since s id) (le : since ≤ since')
    (spares : Store.Spares id s next) : Kept intl since' next id := by
  intro row found
  have same := spares.1
  rw [found,Option.map_some] at same
  obtain ⟨old,there,is⟩ := Option.map_eq_some_iff.mp same.symm
  simp only [EventRow.schedule,Prod.mk.injEq] at is
  obtain ⟨timing,timeZone,text,through⟩ := is
  obtain ⟨dated,rule,exact_,written,fits⟩ := kept old there
  refine ⟨timing ▸ dated,rule,exact_,text ▸ written,?_⟩
  rw [← timing,← timeZone,← through,spares.2]
  exact fits.mono le (fun _ _ => rfl)

theorem keptOf (columns : (s.events.find id).map EventRow.schedule = some event.schedule) (dated : event.timing.Dated)
    (exact_ : ∀ rule, event.recurrenceRule = some rule → Exact rule)
    (fits : Fits intl event.timing event.timeZone event.materialisedThrough since (s.endAt id) event.recurrenceRule) :
    Kept intl since s id := by
  intro row found
  rw [found,Option.map_some,Option.some.injEq] at columns
  simp only [EventRow.schedule,CalendarEvent.schedule,Prod.mk.injEq] at columns
  obtain ⟨timing,timeZone,text,through⟩ := columns
  refine ⟨timing ▸ dated,event.recurrenceRule,exact_,text,?_⟩
  rw [timing,timeZone,through]
  exact fits

structure Loaded (intl : Intl) (since : Instant) (s : Store) (id : CalendarEventId) (event : CalendarEvent) : Prop where
  own : event.id = id
  columns : (s.events.find id).map EventRow.schedule = some event.schedule
  dated : event.timing.Dated
  ruled : ∀ rule, event.recurrenceRule = some rule → Exact rule
  fits : Fits intl event.timing event.timeZone event.materialisedThrough since (s.endAt id) event.recurrenceRule

theorem loaded (kept : Kept intl since s id) (found : s.lockById id = .ok (some event)) : Loaded intl since s id event := by
  unfold Store.lockById Store.findById at found
  split at found
  · cases found
  rename_i row there
  cases read : toAggregate row (s.participantsOf id) with
  | error e =>
    rw [read] at found
    cases found
  | ok aggregate =>
    rw [read] at found
    obtain rfl := Option.some.inj (Except.ok.inj found)
    obtain ⟨rule,stored,read⟩ := bindSource read
    cases read
    obtain ⟨dated,rule',exact_,written,fits⟩ := kept row there
    obtain rfl : rule = rule' := by
      unfold storedRule at stored
      cases rule' with
      | none =>
        rw [written] at stored
        cases stored
        rfl
      | some rule' =>
        rw [written] at stored
        simp only [Option.map_some] at stored
        split at stored
        · rename_i other parsed
          obtain rfl := parseAgain (exact_ rule' rfl) parsed
          exact (Except.ok.inj stored).symm
        · cases stored
    exact ⟨(Table.findSource there).2,by rw [there,Option.map_some,EventRow.schedule,CalendarEvent.schedule,written],dated,
      exact_,fits⟩

theorem savedColumns (dated : event.timing.Dated) (ok : s.save event = .ok next) :
    next.occurrences = s.occurrences ∧ (∀ other, other ≠ event.id → next.events.find other = s.events.find other) ∧
      (next.events.find event.id).map EventRow.schedule = some event.schedule := by
  obtain ⟨row,is,ok⟩ := bindSource ok
  obtain ⟨_,-,ok⟩ := bindSource ok
  cases ok
  rw [rowOf,dbTimingDated dated] at is
  obtain rfl := Except.ok.inj is
  refine ⟨rfl,fun other apart => ?_,?_⟩
  · rw [Store.writeEvent,Table.findUpsert,if_neg apart]
  · rw [Store.writeEvent,Table.findUpsert,if_pos rfl]
    cases s.events.find event.id <;> rfl

theorem savedOther (dated : event.timing.Dated) (ok : s.save event = .ok next) (apart : other ≠ event.id) :
    Store.Spares other s next := by
  obtain ⟨occurrences,others,-⟩ := savedColumns dated ok
  refine ⟨by rw [others other apart],funext (fun x => ?_)⟩
  rw [Store.endAt,Store.endAt,Store.slot,Store.slot,occurrences]

theorem savedEnds (dated : event.timing.Dated) (ok : s.save event = .ok next) : next.endAt id = s.endAt id := by
  funext x
  rw [Store.endAt,Store.endAt,Store.slot,Store.slot,(savedColumns dated ok).1]

def Moves (intl : Intl) (now : Instant) (id : CalendarEventId) (s next : Store) : Prop :=
  (∀ other, other ≠ id → Store.Spares other s next) ∧
    (Store.Spares id s next ∨ Kept intl (materialisationWindow now).start next id)

structure Trimmed (event : CalendarEvent) (now : Instant) (filled rest : Store) : Prop where
  beside : Store.Beside event.id filled rest
  same : ∀ x, (materialisationWindow now).start ≤ x ∨ event.recurrenceRule = none →
    rest.slot event.id x = filled.slot event.id x
  fewer : ∀ x o, rest.slot event.id x = some o → filled.slot event.id x = some o

/- What a command or a sweep does to the rows: it leaves them alone, or the event is rematerialised, older ones may be
pruned behind it, and it is saved with its marker. -/
inductive Effect (intl : Intl) (now : Instant) (id : CalendarEventId) (s next : Store) : Prop where
  | still (occurrences : next.occurrences = s.occurrences) (spares : ∀ other, Store.Spares other s next)
  | settled {event marked : CalendarEvent} {joined filled rest saved : Store} {done : Rematerialised} (own : event.id = id)
      (dated : event.timing.Dated) (ruled : ∀ rule, event.recurrenceRule = some rule → Exact rule)
      (occurrences : joined.occurrences = s.occurrences) (others : ∀ other, other ≠ id → Store.Spares other s joined)
      (filling : rematerialise intl joined event now = .ok (.ok (done,marked,filled)))
      (trimmed : Trimmed event now filled rest) (saving : rest.save marked = .ok saved)
      (after : Store.SameTables saved next)

theorem Trimmed.refl : Trimmed event now s s := ⟨.refl,fun _ _ => rfl,fun _ _ found => found⟩

theorem Effect.none : Effect intl now id s s := .still rfl (fun _ => .refl)

theorem Store.SameTables.effect (same : Store.SameTables s next) : Effect intl now id s next :=
  .still same.occurrences (fun _ => same.spares)

theorem Effect.moves (effect : Effect intl now id s next) : Moves intl now id s next := by
  cases effect with
  | still _ spares => exact ⟨fun other _ => spares other,.inl (spares id)⟩
  | @settled event marked joined filled rest saved done own dated ruled _ others filling trimmed saving after =>
    subst own
    obtain ⟨besideFilled,through,rfl,fits,-⟩ := rematerialised dated filling
    have datedMarked : (event.recordMaterialisedThrough through).timing.Dated := dated
    have kept : Kept intl (materialisationWindow now).start saved event.id := by
      refine keptOf (savedColumns datedMarked saving).2.2 dated ruled ?_
      rw [show saved.endAt event.id = rest.endAt event.id from savedEnds datedMarked saving]
      exact fits.mono (le_refl _) (fun x above => congrArg (Option.map EventOccurrence.endsAt) (trimmed.same x above))
    refine ⟨fun other apart => ?_,.inr (kept.mono (le_refl _) after.spares)⟩
    have filledSpares := (besideFilled.trans trimmed.beside).spares apart
    exact (others other apart).trans ((filledSpares.trans (savedOther datedMarked saving apart)).trans after.spares)

theorem replacedTables {familyMembers : List FamilyMemberId} {time : Instant} {members : List FamilyMemberId}
    (ok : s.replaceForEvent familyMembers time id members = .ok next) : Store.SameTables s next :=
  have ⟨events,occurrences,_⟩ := replaceSource ok
  ⟨events,occurrences⟩

theorem replaceParticipantsSource {α : Type} {result : Result α} {work : Store → Except Thrown (Outcome α)}
    {rollback : Store} (ok : replaceParticipants s r event work rollback = .ok (result,next)) : next = rollback ∨
      ∃ joined, Store.SameTables s joined ∧ work joined = .ok (result,next) := by
  unfold replaceParticipants at ok
  cases replaced : s.replaceForEvent r.familyMembers r.transactionTime event.id event.participants with
  | ok joined =>
    rw [replaced] at ok
    exact .inr ⟨joined,replacedTables replaced,ok⟩
  | error e =>
    rw [replaced] at ok
    cases e with
    | participantNotInFamily =>
      cases ok
      exact .inl rfl
    | _ => cases ok

theorem whenReachableSource {α : Type} {result : Result α} {work : CalendarEvent → Except Thrown (Outcome α)}
    (ok : whenReachable s r id work = .ok (result,next)) : Store.SameTables s next ∨
      ∃ event, s.lockById id = .ok (some event) ∧ work event = .ok (result,next) := by
  obtain ⟨found,locked,ok⟩ := bindSource ok
  cases found with
  | none =>
    cases ok
    exact .inl ⟨rfl,rfl⟩
  | some event =>
    simp only at ok
    split at ok
    · cases ok
      exact .inl ⟨rfl,rfl⟩
    · exact .inr ⟨event,locked,ok⟩

theorem createdSource {params : NewEvent} {member : FamilyMemberId}
    (ok : CalendarEvent.create intl params id member now = .ok event) : event.id = id ∧
      validateTiming params.timing = .ok event.timing ∧ parseRule params.recurrenceRule = .ok event.recurrenceRule := by
  obtain ⟨_,-,ok⟩ := bindSource ok
  obtain ⟨timing,valid,ok⟩ := bindSource ok
  obtain ⟨_,-,ok⟩ := bindSource ok
  obtain ⟨rule,read,ok⟩ := bindSource ok
  cases ok
  exact ⟨rfl,valid,read⟩

theorem publishedTables {done : Rematerialised} : Store.SameTables s (publishMaterialised s event done) := by
  unfold publishMaterialised
  split <;> exact ⟨rfl,rfl⟩

theorem createEffect {params : NewEvent} {result : Result CreateEventOutcome} (dated : params.timing.Dated)
    (ok : createEvent intl s r id params = .ok (result,next)) : Effect intl r.now id s next := by
  unfold createEvent at ok
  split at ok
  · cases ok
    exact .none
  rename_i event created
  obtain ⟨own,valid,read⟩ := createdSource created
  have datedEvent := validateDated dated valid
  obtain ⟨inserted,saved,ok⟩ := bindSource ok
  rcases replaceParticipantsSource ok with rfl | ⟨joined,joins,ok⟩
  · exact .none
  obtain ⟨filling,filled,ok⟩ := bindSource ok
  cases filling with
  | error e =>
    cases ok
    exact .none
  | ok filling =>
    obtain ⟨done,marked,filledStore⟩ := filling
    obtain ⟨last,savedAgain,ok⟩ := bindSource ok
    cases ok
    have published := @publishedTables (last.publish (.eventCreated id marked.timing.kind marked.isRecurring)) marked done
    exact .settled own datedEvent (fun _ is => parseRuleExact read is)
      (joins.occurrences.trans (savedColumns datedEvent saved).1)
      (fun other apart => (savedOther datedEvent saved (own ▸ apart)).trans joins.spares) filled .refl savedAgain
      ⟨published.events,published.occurrences⟩

theorem keepsSchedule {patch : EventPatch} {updated : CalendarEvent} {changed : List ChangedFieldGroup}
    (dated : event.timing.Dated) (datedNext : updated.timing.Dated)
    (ok : event.update intl patch now = .ok (updated,changed)) (not : CalendarEvent.reschedules changed = false) :
    updated.schedule = event.schedule := by
  have edited := CalendarEvent.updateEdited ok
  simp only [CalendarEvent.reschedules,Bool.or_eq_false_iff,decide_eq_false_iff_not] at not
  have timing : updated.timing = event.timing := by
    rcases edited.timing not.1 with same | same
    · exact same
    · exact sameDated datedNext dated same
  simp only [CalendarEvent.schedule,Prod.mk.injEq]
  exact ⟨timing,edited.timeZone not.1,edited.recurrenceRule not.2,edited.materialisedThrough⟩

theorem updatedDated {patch : EventPatch} {updated : CalendarEvent} {changed : List ChangedFieldGroup}
    (dated : event.timing.Dated) (asked : ∀ timing, patch.timing = some timing → timing.Dated)
    (ok : event.update intl patch now = .ok (updated,changed)) : updated.timing.Dated := by
  rcases CalendarEvent.updateTimed ok with same | ⟨timing,merged,is,merges,valid⟩
  · exact same ▸ dated
  · exact validateDated (mergeDated dated (asked timing is) merges) valid

theorem updatedRuled {patch : EventPatch} {updated : CalendarEvent} {changed : List ChangedFieldGroup}
    (ruled : ∀ rule, event.recurrenceRule = some rule → Exact rule)
    (ok : event.update intl patch now = .ok (updated,changed)) : ∀ rule, updated.recurrenceRule = some rule → Exact rule := by
  intro rule is
  rcases CalendarEvent.updateRuled ok with same | ⟨text,read⟩
  · exact ruled rule (same ▸ is)
  · exact parseRuleExact read is

/- What an update does once its row is saved and its participants are replaced. -/
theorem afterEffect {patch : EventPatch} {result : Result UpdateEventOutcome} {updated : CalendarEvent}
    {changed : List ChangedFieldGroup} {saved joined : Store} (load : Loaded intl since s event.id event)
    (dated : updated.timing.Dated) (edit : event.update intl patch r.now = .ok (updated,changed))
    (saving : s.save updated = .ok saved) (joins : Store.SameTables saved joined)
    (ok : afterParticipants intl r updated changed s joined = .ok (result,next)) : Effect intl r.now event.id s next := by
  have own : updated.id = event.id := (CalendarEvent.updateEdited edit).id
  have occurrences : joined.occurrences = s.occurrences := joins.occurrences.trans (savedColumns dated saving).1
  have others : ∀ other, other ≠ event.id → Store.Spares other s joined := fun other apart =>
    (savedOther dated saving (own ▸ apart)).trans joins.spares
  unfold afterParticipants at ok
  split at ok
  · obtain ⟨filling,filled,ok⟩ := bindSource ok
    cases filling with
    | error e =>
      cases ok
      exact .none
    | ok filling =>
      obtain ⟨done,marked,filledStore⟩ := filling
      obtain ⟨final,savedAgain,ok⟩ := bindSource ok
      cases ok
      have published := @publishedTables final marked done
      exact .settled own dated (updatedRuled load.ruled edit) occurrences others filled .refl savedAgain
        ⟨published.events,published.occurrences⟩
  · rename_i not
    cases ok
    have columns := keepsSchedule load.dated dated edit (Bool.eq_false_of_not_eq_true not)
    have here : Store.Spares event.id s saved := by
      refine ⟨?_,savedEnds dated saving⟩
      rw [load.columns,← columns,← own]
      exact (savedColumns dated saving).2.2
    refine .still occurrences (fun other => Store.Spares.trans ?_ (Store.SameTables.spares ⟨rfl,rfl⟩))
    by_cases apart : other = event.id
    · exact apart ▸ here.trans joins.spares
    · exact others other apart

theorem updateEffect {patch : EventPatch} {result : Result UpdateEventOutcome}
    (asked : ∀ timing, patch.timing = some timing → timing.Dated) (kept : Kept intl since s id)
    (ok : updateEvent intl s r id patch = .ok (result,next)) : Effect intl r.now id s next := by
  rcases whenReachableSource ok with same | ⟨event,locked,worked⟩
  · exact same.effect
  have load := loaded kept locked
  obtain rfl := load.own
  unfold updateLocked at worked
  split at worked
  · cases worked
    exact .none
  rename_i updated changed edit
  have dated := updatedDated load.dated asked edit
  split at worked
  · cases worked
    exact .none
  obtain ⟨saved,saving,worked⟩ := bindSource worked
  simp only at worked
  split at worked
  · rcases replaceParticipantsSource worked with rfl | ⟨joined,joins,last⟩
    · exact .none
    · exact afterEffect load dated edit saving joins last
  · exact afterEffect load dated edit saving ⟨rfl,rfl⟩ worked

theorem cancelEffect {result : Result CalendarEvent} (kept : Kept intl since s id)
    (ok : cancelEvent s r id = .ok (result,next)) : Effect intl r.now id s next := by
  rcases whenReachableSource ok with same | ⟨event,locked,worked⟩
  · exact same.effect
  have load := loaded kept locked
  split at worked
  · cases worked
    exact .none
  rename_i cancelled is
  obtain ⟨saved,saving,worked⟩ := bindSource worked
  cases worked
  unfold CalendarEvent.cancel at is
  split at is <;> cases is
  have dated : ({ event with status := .cancelled, updatedAt := r.now } : CalendarEvent).timing.Dated := load.dated
  obtain ⟨occurrences,others,here⟩ := savedColumns dated saving
  refine .still occurrences (fun other =>
    Store.Spares.trans ⟨?_,savedEnds dated saving⟩ (Store.SameTables.spares ⟨rfl,rfl⟩))
  by_cases own : other = event.id
  · rw [own]
    exact here.trans (load.own ▸ load.columns).symm
  · rw [others other own]

theorem cancelOccurrenceSpares {occurrenceId : EventOccurrenceId} {result : Result EventOccurrence}
    (ok : cancelOccurrence s r id occurrenceId = .ok (result,next)) : Store.Spares other s next := by
  rcases whenReachableSource ok with same | ⟨event,-,worked⟩
  · exact same.spares
  split at worked
  · cases worked
    exact .refl
  rename_i occurrence _
  simp only at worked
  split at worked <;> cases worked
  · exact .refl
  refine ⟨rfl,funext (fun x => ?_)⟩
  have slot : (s.cancelOccurrenceRow occurrence.id r.now).slot other x = (s.slot other x).map (fun o =>
      if o.id = occurrence.id && o.cancelledAt.isNone then { o with cancelledAt := some r.now } else o) :=
    Store.updateSlot _ (fun o => { o with cancelledAt := some r.now }) (fun _ => ⟨rfl,rfl,rfl⟩)
  change ((s.cancelOccurrenceRow occurrence.id r.now).slot other x).map EventOccurrence.endsAt = _
  rw [slot,Option.map_map,Store.endAt]
  refine congrArg (fun f => (s.slot other x).map f) (funext (fun o => ?_))
  rw [Function.comp]
  split <;> rfl

theorem prunedSlot {p : EventOccurrence → Bool} (earlier : ∀ o, o.eventId = id → p o = true → o.startsAt < now)
    {x : Instant} (since : now ≤ x) : (s.deleteOccurrences p).slot id x = s.slot id x := by
  rw [Store.deleteSlot]
  cases found : s.slot id x with
  | none => rfl
  | some o =>
    obtain ⟨-,own,start⟩ := Store.slotOwn found
    have spared : p o = false := by
      by_contra selected
      exact absurd (lt_of_lt_of_le (earlier o own (by simpa using selected)) (start ▸ since)) (lt_irrefl _)
    simp [Option.filter,spared]

theorem prunedEnds {p : EventOccurrence → Bool} (earlier : ∀ o, o.eventId = id → p o = true → o.startsAt < now)
    {x : Instant} (since : now ≤ x) : (s.deleteOccurrences p).endAt id x = s.endAt id x :=
  congrArg (Option.map EventOccurrence.endsAt) (prunedSlot earlier since)

theorem rematerialisedWindow {marked : CalendarEvent} {done : Rematerialised}
    (ok : rematerialise intl s event now = .ok (.ok (done,marked,next))) : done.window = materialisationWindow now := by
  obtain ⟨result,-,ok⟩ := bindSource ok
  cases result with
  | error e => cases ok
  | ok plan =>
    obtain ⟨_,-,ok⟩ := bindSource ok
    cases ok
    rfl

theorem prunedTrimmed (recurring : event.recurrenceRule ≠ none) :
    Trimmed event now s (s.pruneForEventBefore event.id (materialisationWindow now).start).2 where
  beside := Store.deleteBeside (fun o selected => by simpa using (Bool.and_eq_true_iff.mp selected).1)
  same x since := prunedSlot (fun o _ selected => by simpa using (Bool.and_eq_true_iff.mp selected).2)
    (since.resolve_right recurring)
  fewer x o found := (Option.filter_eq_some_iff.mp ((Store.deleteSlot _).symm.trans found)).1

theorem materialiseEffect {result : Result MaterialiseHorizonOutcome} (kept : Kept intl since s id)
    (ok : materialiseHorizon intl s now id = .ok (result,next)) : Effect intl now id s next := by
  obtain ⟨found,locked,worked⟩ := bindSource ok
  cases found with
  | none =>
    cases worked
    exact .none
  | some event =>
    have load := loaded kept locked
    simp only at worked
    split at worked
    · cases worked
      exact .none
    rename_i goes
    split at worked
    · cases worked
      exact .none
    obtain ⟨filling,filled,worked⟩ := bindSource worked
    cases filling with
    | error e =>
      cases worked
      exact .none
    | ok filling =>
      obtain ⟨done,marked,filledStore⟩ := filling
      obtain ⟨saved,saving,worked⟩ := bindSource worked
      cases worked
      rw [rematerialisedWindow filled] at saving
      have recurring : event.recurrenceRule ≠ none := by
        intro none_
        simp [CalendarEvent.isRecurring,none_] at goes
      exact .settled load.own load.dated load.ruled rfl (fun _ _ => .refl) filled (prunedTrimmed recurring) saving ⟨rfl,rfl⟩

theorem prunedKept (kept : Kept intl since s id) (le : since ≤ (materialisationWindow now).start) :
    Kept intl (materialisationWindow now).start (pruneTrailingOccurrences s now).2 id := by
  intro row found
  obtain ⟨dated,rule,exact_,written,fits⟩ := kept row found
  refine ⟨dated,rule,exact_,written,fits.mono le (fun x above => ?_)⟩
  rcases above with above | oneOff
  · exact prunedEnds (fun o _ selected => by simpa using (Bool.and_eq_true_iff.mp selected).1) above
  · -- Those of an event without a rule are not pruned.
    change (s.deleteOccurrences _).endAt id x = _
    rw [Store.endAt,Store.endAt,Store.deleteSlot]
    cases slot : s.slot id x with
    | none => rfl
    | some o =>
      obtain ⟨-,own,-⟩ := Store.slotOwn slot
      have there : s.events.find o.eventId = some row := own ▸ found
      simp [Option.filter,there,written,oneOff]

end
end FamilyPlatform.Calendar
