import FamilyPlatform.Calendar.Alike
import FamilyPlatform.Calendar.Audited

/-! What a reader is told of events with a participant out of their sight: from any two
stores that differ in such events only, the same, where none of them fails to load. -/
namespace FamilyPlatform.Calendar
open ZonedTime TwoRuns

inductive Operation where
  | listOccurrences (start stop : Option Instant)
  | getEvent (eventId : CalendarEventId)
  | updateEvent (eventId : CalendarEventId) (patch : EventPatch)
  | cancelEvent (eventId : CalendarEventId)
  | cancelOccurrence (eventId : CalendarEventId) (occurrenceId : EventOccurrenceId)
  | rescheduleOccurrence (eventId : CalendarEventId) (occurrenceId : EventOccurrenceId)
  deriving DecidableEq, Repr

inductive Response where
  | occurrences (views : List OccurrenceView)
  | event (event : CalendarEvent)
  | updated (outcome : UpdateEventOutcome)
  | occurrence (occurrence : EventOccurrence)
  deriving DecidableEq

def Operation.eventId : Operation → Option CalendarEventId
  | .listOccurrences _ _ => none
  | .getEvent id | .updateEvent id _ | .cancelEvent id | .cancelOccurrence id _ | .rescheduleOccurrence id _ => some id

def reply {α : Type} (as_ : α → Response) (outcome : Outcome α) : Outcome Response := (outcome.1.map as_, outcome.2)

def perform (intl : Intl) (s : Store) (r : Request) : Operation → Except Thrown (Outcome Response)
  | .listOccurrences start stop => (listOccurrences intl s r start stop).map (reply .occurrences)
  | .getEvent id => (getEvent s r id).map (reply .event)
  | .updateEvent id patch => (updateEvent intl s r id patch).map (reply .updated)
  | .cancelEvent id => (cancelEvent s r id).map (reply .event)
  | .cancelOccurrence id occurrenceId => (cancelOccurrence s r id occurrenceId).map (reply .occurrence)
  | .rescheduleOccurrence id occurrenceId => (rescheduleOccurrence s r id occurrenceId).map (reply .occurrence)

def answer (intl : Intl) (s : Store) (r : Request) (op : Operation) : Except Thrown (Result Response) :=
  (perform intl s r op).map Prod.fst

def afterwards (intl : Intl) (s : Store) (r : Request) (op : Operation) : Store :=
  match perform intl s r op with
  | .ok (_, next) => next
  | .error _ => s

/- What there is of an event for a reader: nothing, if one of its participants is out of sight. -/
def Store.shown (s : Store) (visible : List FamilyMemberId) (id : CalendarEventId) :
    Option (EventRow × List FamilyMemberId × List EventOccurrence) :=
  match s.events.find id with
  | none => none
  | some row =>
    if ∀ m ∈ s.participantsOf id, m ∈ visible then some (row,s.participantsOf id,s.listForEvent id none) else none

def Agree (visible : List FamilyMemberId) (s s' : Store) : Prop := ∀ id, s.shown visible id = s'.shown visible id

def Store.Unreadable (s : Store) (id : CalendarEventId) : Prop :=
  ∃ row text, s.events.find id = some row ∧ row.recurrenceRule = some text ∧
    ∀ rule, RecurrenceRule.parse text ≠ .ok rule

/- A range that is answered is recorded; of one that is not, nothing is appended. -/
def Audited (intl : Intl) (s : Store) (r : Request) : Operation → Prop
  | .listOccurrences start stop => match listOccurrences intl s r start stop with
    | .ok (.ok views, next) => ∃ from_ to_, checkRange start stop = .ok (from_,to_) ∧
        Recorded s next r ⟨from_,to_,r.visibility.visible⟩ views
    | _ => (afterwards intl s r (.listOccurrences start stop)).audit = s.audit
  | _ => True

section
variable {s s' : Store} {visible : List FamilyMemberId} {id : CalendarEventId} {row : EventRow}

theorem shownSource {participants : List FamilyMemberId} {occurrences : List EventOccurrence}
    (shown : s.shown visible id = some (row,participants,occurrences)) :
    s.events.find id = some row ∧ participants = s.participantsOf id ∧ occurrences = s.listForEvent id none ∧
      ∀ m ∈ participants, m ∈ visible := by
  unfold Store.shown at shown
  split at shown
  · cases shown
  · rename_i found
    split at shown
    · rename_i seen
      cases shown
      exact ⟨found,rfl,rfl,seen⟩
    · cases shown

theorem shownOf (found : s.events.find id = some row) (seen : ∀ m ∈ s.participantsOf id, m ∈ visible) :
    s.shown visible id = some (row,s.participantsOf id,s.listForEvent id none) := by
  simp only [Store.shown,found]
  exact if_pos seen

theorem memListed {o : EventOccurrence} : o ∈ s.listForEvent id none ↔ o ∈ s.occurrences.rows ∧ o.eventId = id := by
  simp [Store.listForEvent]

theorem shownTwin {view : EventRow × List FamilyMemberId × List EventOccurrence}
    (shown : s.shown visible id = some view) (shown' : s'.shown visible id = some view) : Twin id s s' := by
  obtain ⟨row,participants,occurrences⟩ := view
  obtain ⟨found,members,listed,-⟩ := shownSource shown
  obtain ⟨found',members',listed',-⟩ := shownSource shown'
  refine ⟨by rw [found,found'],fun o own => ?_,fun m => ?_⟩
  · have same : o ∈ s.listForEvent id none ↔ o ∈ s'.listForEvent id none := by rw [← listed,← listed']
    rw [memListed,memListed] at same
    simpa [own] using same
  · rw [← memParticipants,← memParticipants,← members,← members']

theorem shownFind {participants : List FamilyMemberId} {occurrences : List EventOccurrence}
    (shown : s.shown visible id = some (row,participants,occurrences)) :
    s.findById id = (toAggregate row participants).map some := by
  obtain ⟨found,rfl,-,-⟩ := shownSource shown
  simp only [Store.findById,found]

theorem aggregateParticipants {participants : List FamilyMemberId} {event : CalendarEvent}
    (ok : toAggregate row participants = .ok event) : event.id = row.id ∧ event.participants = participants := by
  obtain ⟨rule,-,ok⟩ := bindSource ok
  cases ok
  exact ⟨rfl,rfl⟩

theorem noneHidden {participants : List FamilyMemberId} {visibility : ResolvedVisibility} :
    hiddenParticipants participants visibility = [] ↔ ∀ m ∈ participants, m ∈ visibility.visible := by
  simp [hiddenParticipants]

theorem unreadableFind (unreadable : s.Unreadable id) : s.findById id = .error .unparsableRule := by
  obtain ⟨row,text,found,stored,refused⟩ := unreadable
  have rule : storedRule row = .error .unparsableRule := by
    simp only [storedRule,stored]
    cases read : RecurrenceRule.parse text with
    | error e => rfl
    | ok rule => exact absurd read (refused rule)
  simp only [Store.findById,found,toAggregate,rule]
  rfl

theorem readableAggregate (found : s.events.find id = some row) (readable : ¬ s.Unreadable id)
    (participants : List FamilyMemberId) : ∃ event, toAggregate row participants = .ok event := by
  have rule : ∃ rule, storedRule row = .ok rule := by
    unfold storedRule
    cases stored : row.recurrenceRule with
    | none => exact ⟨none,rfl⟩
    | some text =>
      cases read : RecurrenceRule.parse text with
      | ok rule => exact ⟨some rule,by simp only [read]⟩
      | error e =>
        refine absurd ⟨row,text,found,stored,fun rule is => ?_⟩ readable
        rw [read] at is
        cases is
  obtain ⟨rule,stored⟩ := rule
  simp only [toAggregate,stored,bind,Except.bind]
  exact ⟨_,rfl⟩

theorem unshownFind {visibility : ResolvedVisibility} (unshown : s.shown visibility.visible id = none)
    (readable : ¬ s.Unreadable id) : s.findById id = .ok none ∨
      ∃ event, s.findById id = .ok (some event) ∧ hiddenParticipants event.participants visibility ≠ [] := by
  cases found : s.events.find id with
  | none => exact .inl (by simp only [Store.findById,found])
  | some row =>
    obtain ⟨event,read⟩ := readableAggregate found readable (s.participantsOf id)
    refine .inr ⟨event,by simp only [Store.findById,found,read]; rfl,?_⟩
    rw [(aggregateParticipants read).2,ne_eq,noneHidden]
    intro seen
    rw [shownOf found seen] at unshown
    cases unshown

end

section
variable {intl : Intl} {s s' : Store} {r : Request} {id : CalendarEventId}

theorem whenHidden {α : Type} {work : CalendarEvent → Except Thrown (Outcome α)}
    (unshown : s.shown r.visibility.visible id = none) (readable : ¬ s.Unreadable id) :
    (whenReachable s r id work).map Prod.fst = .ok (.error .notFound) := by
  rcases unshownFind unshown readable with missing | ⟨event,found,hidden⟩
  · simp only [whenReachable,Store.lockById,missing]
    rfl
  · simp only [whenReachable,Store.lockById,found,bind,Except.bind,if_pos hidden]
    rfl

theorem getHidden (unshown : s.shown r.visibility.visible id = none) (readable : ¬ s.Unreadable id) :
    (getEvent s r id).map Prod.fst = .ok (.error .notFound) := by
  rcases unshownFind unshown readable with missing | ⟨event,found,hidden⟩
  · simp only [getEvent,missing]
    rfl
  · simp only [getEvent,found,bind,Except.bind,if_pos hidden]
    rfl

theorem whenShown {α : Type} {view : EventRow × List FamilyMemberId × List EventOccurrence}
    {work work' : CalendarEvent → Except Thrown (Outcome α)} (shown : s.shown r.visibility.visible id = some view)
    (shown' : s'.shown r.visibility.visible id = some view)
    (alike : ∀ event, event.id = id → Alike Any SameOutcome (work event) (work' event)) :
    (whenReachable s r id work).map Prod.fst = (whenReachable s' r id work').map Prod.fst := by
  obtain ⟨row,participants,occurrences⟩ := view
  obtain ⟨found,-,-,seen⟩ := shownSource shown
  cases read : toAggregate row participants with
  | error e =>
    simp only [whenReachable,Store.lockById,shownFind shown,shownFind shown',read]
    rfl
  | ok event =>
    obtain ⟨own,members⟩ := aggregateParticipants read
    have none_ : hiddenParticipants event.participants r.visibility = [] := noneHidden.mpr (members ▸ seen)
    simp only [whenReachable,Store.lockById,shownFind shown,shownFind shown',read,bind,Except.bind,Except.map,none_,ne_eq,
      not_true_eq_false,if_false]
    exact sameAnswer (alike event (own.trans (Table.findSource found).2))

theorem getShown {view : EventRow × List FamilyMemberId × List EventOccurrence}
    (shown : s.shown r.visibility.visible id = some view) (shown' : s'.shown r.visibility.visible id = some view) :
    (getEvent s r id).map Prod.fst = (getEvent s' r id).map Prod.fst := by
  obtain ⟨row,participants,occurrences⟩ := view
  obtain ⟨-,-,-,seen⟩ := shownSource shown
  cases read : toAggregate row participants with
  | error e =>
    simp only [getEvent,shownFind shown,shownFind shown',read]
    rfl
  | ok event =>
    obtain ⟨-,members⟩ := aggregateParticipants read
    have none_ : hiddenParticipants event.participants r.visibility = [] := noneHidden.mpr (members ▸ seen)
    simp only [getEvent,shownFind shown,shownFind shown',read,bind,Except.bind,Except.map,none_,ne_eq,
      not_true_eq_false,if_false]
    rfl

theorem cancelAlike {event : CalendarEvent} :
    Alike Any SameOutcome
      (match event.cancel r.now with
        | none => (.ok (.ok event, s) : Except Thrown (Outcome CalendarEvent))
        | some cancelled => do
          let saved ← s.save cancelled
          return (.ok cancelled, saved.publish (.eventCancelled event.id none)))
      (match event.cancel r.now with
        | none => .ok (.ok event, s')
        | some cancelled => do
          let saved ← s'.save cancelled
          return (.ok cancelled, saved.publish (.eventCancelled event.id none))) := by
  cases event.cancel r.now with
  | none => exact .ok rfl
  | some cancelled => exact (saveAlways cancelled s s').bind (fun _ _ _ => .ok rfl)

theorem occurrenceSame (twin : Twin id s s') (occurrenceId : EventOccurrenceId) :
    (s.findOccurrence occurrenceId).filter (fun o => o.eventId = id) =
      (s'.findOccurrence occurrenceId).filter (fun o => o.eventId = id) := by
  have sees : ∀ (u : Store) o, (u.findOccurrence occurrenceId).filter (fun o => o.eventId = id) = some o ↔
      o ∈ u.occurrences.rows ∧ o.id = occurrenceId ∧ o.eventId = id := by
    intro u o
    rw [Option.filter_eq_some_iff,decide_eq_true_eq]
    constructor
    · rintro ⟨found,own⟩
      exact ⟨(Table.findSource found).1,(Table.findSource found).2,own⟩
    · rintro ⟨mem,rfl,own⟩
      exact ⟨Table.findMember mem,own⟩
  refine Option.ext (fun o => ?_)
  rw [sees,sees]
  exact ⟨fun ⟨mem,key,own⟩ => ⟨(twin.occurrences o own).mp mem,key,own⟩,
    fun ⟨mem,key,own⟩ => ⟨(twin.occurrences o own).mpr mem,key,own⟩⟩

theorem selectedShown (agree : Agree r.visibility.visible s s') {q : RangeQuery}
    (asks : q.visibleMemberIds = r.visibility.visible) {o : EventOccurrence} (mem : o ∈ s.occurrences.rows)
    (selected : s.selects q o = true) : ∃ row, s.events.find o.eventId = some row ∧
      s'.events.find o.eventId = some row ∧ s'.participantsOf o.eventId = s.participantsOf o.eventId ∧
      o ∈ s'.occurrences.rows ∧ s'.selects q o = true := by
  obtain ⟨row,found⟩ := Option.isSome_iff_exists.mp (s.owned o mem)
  obtain ⟨overlaps,seen⟩ := selectsSource.mp selected
  rw [asks] at seen
  have shown := shownOf found seen
  have shown' := agree o.eventId ▸ shown
  have twin := shownTwin shown shown'
  obtain ⟨found',members,-,-⟩ := shownSource shown'
  exact ⟨row,found,found',members.symm,(twin.occurrences o rfl).mp mem,
    selectsSource.mpr ⟨overlaps,by rwa [asks,← members]⟩⟩

theorem listVisibleSame (agree : Agree r.visibility.visible s s') {q : RangeQuery}
    (asks : q.visibleMemberIds = r.visibility.visible) : s.listVisibleInRange intl q = s'.listVisibleInRange intl q := by
  have total : Std.Total rangeOrder := ⟨fun a b => by
    rcases Int.lt_trichotomy a.startsAt b.startsAt with before | same | after
    · exact .inl (.inl before)
    · exact (Nat.le_total a.id b.id).imp (fun le => .inr ⟨same,le⟩) (fun le => .inr ⟨same.symm,le⟩)
    · exact .inr (.inl after)⟩
  have trans : IsTrans EventOccurrence rangeOrder := ⟨fun a b c ab bc => by
    rcases ab with ab | ⟨ab,le⟩ <;> rcases bc with bc | ⟨bc,le'⟩
    · exact .inl (Int.lt_trans ab bc)
    · exact .inl (bc ▸ ab)
    · exact .inl (ab ▸ bc)
    · exact .inr ⟨ab.trans bc,Nat.le_trans le le'⟩⟩
  have apart : ∀ a b : EventOccurrence, rangeOrder a b → rangeOrder b a → a.id = b.id := by
    rintro a b (ab | ⟨ab,le⟩) (ba | ⟨ba,le'⟩)
    · exact absurd ab (Int.lt_asymm ba)
    · exact absurd ba (Int.ne_of_gt ab)
    · exact absurd ab (Int.ne_of_gt ba)
    · exact Nat.le_antisymm le le'
  have rows : (s.occurrences.rows.filter (s.selects q)).insertionSort rangeOrder =
      (s'.occurrences.rows.filter (s'.selects q)).insertionSort rangeOrder := by
    refine Table.selectedSame (fun a b _ _ => apart a b) (fun o => ⟨?_,?_⟩)
    · rintro ⟨mem,selected⟩
      obtain ⟨-,-,-,-,there⟩ := selectedShown agree asks mem selected
      exact there
    · rintro ⟨mem,selected⟩
      obtain ⟨-,-,-,-,there⟩ := selectedShown (fun id => (agree id).symm) asks mem selected
      exact there
  have joined : ∀ o ∈ (s'.occurrences.rows.filter (s'.selects q)).insertionSort rangeOrder,
      s'.events.find o.eventId = s.events.find o.eventId ∧ s'.participantsOf o.eventId = s.participantsOf o.eventId := by
    intro o mem
    obtain ⟨there,selected⟩ := List.mem_filter.mp ((List.mem_insertionSort _).mp mem)
    obtain ⟨row,found,found',members,-⟩ := selectedShown (fun id => (agree id).symm) asks there selected
    exact ⟨found.trans found'.symm,members.symm⟩
  unfold Store.listVisibleInRange
  simp only [rows]
  generalize (s'.occurrences.rows.filter (s'.selects q)).insertionSort rangeOrder = selected at joined
  induction selected with
  | nil => rfl
  | cons o rest ih =>
    obtain ⟨found,members⟩ := joined o List.mem_cons_self
    have later := ih (fun o mem => joined o (List.mem_cons_of_mem _ mem))
    rw [List.filterMap_cons,List.filterMap_cons,found]
    cases s.events.find o.eventId with
    | none => exact later
    | some row =>
      simp only [Option.map_some,List.mapM_cons,later,members]

theorem listSameAnswer (agree : Agree r.visibility.visible s s') (start stop : Option Instant) :
    (listOccurrences intl s r start stop).map Prod.fst = (listOccurrences intl s' r start stop).map Prod.fst := by
  unfold listOccurrences
  split
  · rfl
  · rename_i from_ to_ checked
    simp only [@listVisibleSame intl s s' r agree ⟨from_,to_,r.visibility.visible⟩ rfl]
    cases s'.listVisibleInRange intl ⟨from_,to_,r.visibility.visible⟩ <;> rfl

theorem answerOf {α : Type} {x : Except Thrown (Outcome α)} {as_ : α → Response} :
    (x.map (reply as_)).map Prod.fst = (x.map Prod.fst).map (Except.map as_) := by
  cases x <;> rfl

theorem answerShown {op : Operation} (key : op.eventId = some id)
    {view : EventRow × List FamilyMemberId × List EventOccurrence}
    (shown : s.shown r.visibility.visible id = some view) (shown' : s'.shown r.visibility.visible id = some view) :
    answer intl s r op = answer intl s' r op := by
  have twin := shownTwin shown shown'
  cases op with
  | listOccurrences => cases key
  | getEvent =>
    cases key
    simp only [answer,perform,answerOf,getShown shown shown']
  | updateEvent _ patch =>
    cases key
    have same : (whenReachable s r id (updateLocked intl s r patch)).map Prod.fst =
        (whenReachable s' r id (updateLocked intl s' r patch)).map Prod.fst :=
      whenShown shown shown' (fun event own => updateLockedAlike (own ▸ twin))
    simp only [answer,perform,answerOf,updateEvent,same]
  | cancelEvent =>
    cases key
    have same := whenShown shown shown' (fun event _ => @cancelAlike s s' r event)
    simp only [answer,perform,answerOf]
    exact congrArg _ same
  | cancelOccurrence _ occurrenceId =>
    cases key
    simp only [answer,perform,answerOf,cancelOccurrence,findReachableOccurrence]
    refine congrArg _ (whenShown shown shown' (fun event own => ?_))
    simp only [own,occurrenceSame twin occurrenceId]
    split
    · exact .ok rfl
    · split <;> exact .ok rfl
  | rescheduleOccurrence _ occurrenceId =>
    cases key
    simp only [answer,perform,answerOf,rescheduleOccurrence,findReachableOccurrence]
    refine congrArg _ (whenShown shown shown' (fun event own => ?_))
    simp only [own,occurrenceSame twin occurrenceId]
    split <;> exact .ok rfl

theorem answerHidden {op : Operation} (key : op.eventId = some id) (unshown : s.shown r.visibility.visible id = none)
    (readable : ¬ s.Unreadable id) : answer intl s r op = .ok (.error .notFound) := by
  cases op with
  | listOccurrences => cases key
  | getEvent =>
    cases key
    simp only [answer,perform,answerOf,getHidden unshown readable]
    rfl
  | updateEvent =>
    cases key
    simp only [answer,perform,answerOf,updateEvent,whenHidden unshown readable]
    rfl
  | cancelEvent =>
    cases key
    simp only [answer,perform,answerOf,cancelEvent,whenHidden unshown readable]
    rfl
  | cancelOccurrence =>
    cases key
    simp only [answer,perform,answerOf,cancelOccurrence,findReachableOccurrence,whenHidden unshown readable]
    rfl
  | rescheduleOccurrence =>
    cases key
    simp only [answer,perform,answerOf,rescheduleOccurrence,findReachableOccurrence,whenHidden unshown readable]
    rfl

theorem answerUnreadable {op : Operation} (key : op.eventId = some id) (unreadable : s.Unreadable id) :
    answer intl s r op = .error .unparsableRule := by
  have found := unreadableFind unreadable
  have locked : ∀ {α : Type} (work : CalendarEvent → Except Thrown (Outcome α)),
      whenReachable s r id work = .error .unparsableRule := by
    intro α work
    simp only [whenReachable,Store.lockById,found]
    rfl
  cases op with
  | listOccurrences => cases key
  | getEvent =>
    cases key
    simp only [answer,perform,answerOf,getEvent,found]
    rfl
  | updateEvent =>
    cases key
    simp only [answer,perform,answerOf,updateEvent,locked]
    rfl
  | cancelEvent =>
    cases key
    simp only [answer,perform,answerOf,cancelEvent,locked]
    rfl
  | cancelOccurrence =>
    cases key
    simp only [answer,perform,answerOf,cancelOccurrence,findReachableOccurrence,locked]
    rfl
  | rescheduleOccurrence =>
    cases key
    simp only [answer,perform,answerOf,rescheduleOccurrence,findReachableOccurrence,locked]
    rfl

/- No occurrence is moved, whoever asks: only the record of a refusal is left. -/
theorem rescheduleRefused {outcome : Outcome EventOccurrence} {eventId : CalendarEventId} {occurrenceId : EventOccurrenceId}
    (done : rescheduleOccurrence s r eventId occurrenceId = .ok outcome) :
    (∃ e, outcome.1 = .error e) ∧ outcome.2 = { s with audit := outcome.2.audit } := by
  obtain ⟨found,-,done⟩ := bindSource done
  cases found with
  | none =>
    cases done
    exact ⟨⟨_,rfl⟩,rfl⟩
  | some event =>
    simp only at done
    split at done
    · cases done
      exact ⟨⟨_,rfl⟩,rfl⟩
    · split at done <;> cases done <;> exact ⟨⟨_,rfl⟩,rfl⟩

theorem audited (op : Operation) : Audited intl s r op := by
  cases op with
  | listOccurrences start stop =>
    simp only [Audited]
    split
    · rename_i ok
      exact rangeRecorded ok
    · rename_i unanswered
      simp only [afterwards,perform]
      cases done : listOccurrences intl s r start stop with
      | error e => rfl
      | ok outcome =>
        obtain ⟨result,next⟩ := outcome
        cases result with
        | ok views => exact absurd done (unanswered views next)
        | error e =>
          unfold listOccurrences at done
          split at done
          · cases done
            rfl
          · obtain ⟨views,-,done⟩ := bindSource done
            cases done
  | _ => trivial

end

/-- From two stores that differ only in events with a participant out of sight, the reader is told the
same if and only if the event that they ask for fails to load in both or in neither; and in any case
the read of a range leaves its record. -/
theorem hiddenEvents (intl : Intl) (r : Request) (s s' : Store) (agree : Agree r.visibility.visible s s')
    (op : Operation) :
    (answer intl s r op = answer intl s' r op ∧ Audited intl s r op ∧ Audited intl s' r op) ↔
    ∀ id, op.eventId = some id → (s.Unreadable id ↔ s'.Unreadable id) := by
  constructor
  · rintro ⟨same,-,-⟩ id key
    -- An event that loads in one of the stores alone is hidden there, or missing.
    have apart : ∀ t u : Store, Agree r.visibility.visible t u → answer intl t r op = answer intl u r op →
        t.Unreadable id → u.Unreadable id := by
      intro t u agree same unreadable
      by_contra readable
      have unshown : u.shown r.visibility.visible id = none := by
        cases shown : u.shown r.visibility.visible id with
        | none => rfl
        | some view =>
          obtain ⟨row,participants,occurrences⟩ := view
          obtain ⟨row',text,found,stored,refused⟩ := unreadable
          have there := (shownSource ((agree id).trans shown)).1
          obtain rfl := Option.some.inj (found.symm.trans there)
          exact absurd ⟨row',text,(shownSource shown).1,stored,refused⟩ readable
      rw [answerUnreadable key unreadable,answerHidden key unshown readable] at same
      cases same
    exact ⟨apart s s' agree same,apart s' s (fun id => (agree id).symm) same.symm⟩
  · intro readable
    refine ⟨?_,audited op,audited op⟩
    cases key : op.eventId with
    | none =>
      cases op with
      | listOccurrences start stop => simp only [answer,perform,answerOf,listSameAnswer agree start stop]
      | _ => cases key
    | some id =>
      cases shown : s.shown r.visibility.visible id with
      | some view => exact answerShown key shown ((agree id).symm.trans shown)
      | none =>
        have shown' := (agree id).symm.trans shown
        by_cases unreadable : s.Unreadable id
        · rw [answerUnreadable key unreadable,answerUnreadable key ((readable id key).mp unreadable)]
        · rw [answerHidden key shown unreadable,
            answerHidden key shown' (fun is => unreadable ((readable id key).mpr is))]

instance (visible : List FamilyMemberId) (s s' : Store) : Decidable (Agree visible s s') :=
  decidable_of_iff (∀ id ∈ s.events.rows.map EventRow.id ++ s'.events.rows.map EventRow.id,
      s.shown visible id = s'.shown visible id) (by
    refine ⟨fun same id => ?_,fun agree id _ => agree id⟩
    by_cases there : id ∈ s.events.rows.map EventRow.id ++ s'.events.rows.map EventRow.id
    · exact same id there
    · have absent : ∀ u : Store, id ∉ u.events.rows.map EventRow.id → u.shown visible id = none := by
        intro u away
        unfold Store.shown
        split
        · rfl
        · rename_i row found
          obtain ⟨mem,key⟩ := Table.findSource found
          exact absurd (key ▸ List.mem_map_of_mem mem) away
      rw [List.mem_append,not_or] at there
      rw [absent s there.1,absent s' there.2])

def everywhereUtc : Intl := fun _ => some Zone.utc

def appointment (rule : Option String) : NewEvent where
  title := "Dentist"
  description := none
  location := none
  category := some .medical
  timing := .timed (some 3600000) (some 7200000)
  timeZone := "Europe/London"
  recurrenceRule := rule
  participants := [7]
  attachmentRefs := []

def parent : Request := ⟨⟨0,1,some 11,"a"⟩,⟨[1,2,7],[7]⟩,[1,2,7],1000,1000⟩
def otherAdult : Request := ⟨⟨0,2,some 12,"b"⟩,⟨[1,2],[]⟩,[1,2,7],2000,2000⟩

def storeAfter (intl : Intl) (r : Request) (id : CalendarEventId) (params : NewEvent) : Store :=
  match createEvent intl .empty r id params with
  | .ok (_, next) => next
  | .error _ => .empty

theorem appointmentAsMissing :
    answer everywhereUtc (storeAfter everywhereUtc parent 5 (appointment none)) otherAdult (.cancelEvent 5) =
      answer everywhereUtc .empty otherAdult (.cancelEvent 5) ∧
    Audited everywhereUtc (storeAfter everywhereUtc parent 5 (appointment none)) otherAdult (.cancelEvent 5) ∧
    Audited everywhereUtc .empty otherAdult (.cancelEvent 5) := by
  refine (hiddenEvents everywhereUtc otherAdult (storeAfter everywhereUtc parent 5 (appointment none)) .empty
    (by decide +kernel) (.cancelEvent 5)).mpr ?_
  rintro id ⟨⟩
  refine iff_of_false ?_ ?_
  · rintro ⟨row,text,found,stored,-⟩
    have ruleless : (((storeAfter everywhereUtc parent 5 (appointment none)).events.find 5).all
      (fun row => row.recurrenceRule.isNone)) = true := by decide +kernel
    rw [found,Option.all_some,stored] at ruleless
    cases ruleless
  · rintro ⟨row,text,found,-⟩
    cases found

/- Every year, 10^21 times: the rule is stored as a text that is not read again. -/
theorem appointmentTold : ¬ ∀ (intl : Intl) (r : Request) (s s' : Store) (op : Operation),
    Agree r.visibility.visible s s' →
      answer intl s r op = answer intl s' r op ∧ Audited intl s r op ∧ Audited intl s' r op := by
  intro all
  obtain ⟨same,-⟩ := all everywhereUtc otherAdult
    (storeAfter everywhereUtc parent 5 (appointment (some "FREQ=YEARLY;COUNT=1000000000000000000000"))) .empty
    (.getEvent 5) (by decide +kernel)
  exact absurd same (by decide +kernel)

end FamilyPlatform.Calendar
