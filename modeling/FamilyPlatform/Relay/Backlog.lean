import FamilyPlatform.Lib.Batches
import FamilyPlatform.Relay.Delivered

/-! Ticks of the relay one after another, where the sends of some rows always fail: what is
behind a whole batch of those is never sent. -/
namespace FamilyPlatform.Relay

variable {Payload : Type}

structure Attempt (Payload : Type) where
  outcomes : ClaimedOutboxEvent Payload → QueueDefinition → CallOutcome
  now : Instant

def sendMoves (tick : Nat) (outcome : QueueDefinition → CallOutcome) : List QueueDefinition → List (Move Payload)
  | [] => [.finish tick]
  | queue :: rest => .send tick (outcome queue) :: if outcome queue = .acknowledged then sendMoves tick outcome rest else []

section
variable (topology : List QueueDefinition)

def eventMoves (tick : Nat) (outcomes : ClaimedOutboxEvent Payload → QueueDefinition → CallOutcome)
    (event : ClaimedOutboxEvent Payload) : List (Move Payload) :=
  sendMoves tick (outcomes event) (resolveDestinations event.eventType topology)

def runOutboxRelaySweep (c : State Payload) (a : Attempt Payload) : Option (State Payload) :=
  run topology c (.claim [] :: ((claimUnpublished c []).flatMap (eventMoves topology c.ticks.length a.outcomes) ++
    [.mark c.ticks.length a.now,.commit c.ticks.length]))

def sweeps (c : State Payload) : List (Attempt Payload) → Option (State Payload)
  | [] => some c
  | a :: rest => do
    let next ← runOutboxRelaySweep topology c a
    sweeps next rest

def delivers (outcomes : ClaimedOutboxEvent Payload → QueueDefinition → CallOutcome)
    (event : ClaimedOutboxEvent Payload) : Bool :=
  (resolveDestinations event.eventType topology).all (fun queue => outcomes event queue = .acknowledged)

end

def backlog (c : State Payload) : List (OutboxRow Payload) :=
  (c.rows.rows.filter (fun row => row.publishedAt.isNone)).insertionSort (fun a b => a.occurredAt ≤ b.occurredAt)

section
variable {topology : List QueueDefinition} {c next : State Payload} {i : Nat} {t : Tick Payload}

theorem runAppend (xs ys : List (Move Payload)) :
    run topology c (xs ++ ys) = (run topology c xs).bind (fun next => run topology next ys) := by
  induction xs generalizing c with
  | nil => rfl
  | cons m rest ih =>
    simp only [List.cons_append,run,bind]
    cases move topology c m with
    | none => rfl
    | some next => exact ih

theorem eventRuns {outcome : QueueDefinition → CallOutcome} {event : ClaimedOutboxEvent Payload}
    {rest : List (ClaimedOutboxEvent Payload)} (found : c.ticks[i]? = some t) (phase : t.phase = .sending)
    (todo : t.todo = event :: rest) :
    ∃ messages u, run topology c (sendMoves i outcome t.destinations) =
        some { c with messages := messages, ticks := c.ticks.set i u } ∧
      u.phase = .sending ∧ u.todo = rest ∧ u.destinations = upcoming topology rest ∧ u.isOpen = t.isOpen ∧
      u.finished = t.finished ++ if t.destinations.all (fun queue => outcome queue = .acknowledged) then [event.id] else [] := by
  obtain ⟨queues,is⟩ : ∃ queues, t.destinations = queues := ⟨_,rfl⟩
  rw [is]
  induction queues generalizing c t with
  | nil =>
    refine ⟨c.messages,{ t with todo := rest, destinations := upcoming topology rest, finished := t.finished ++ [event.id] },
      ?_,phase,rfl,rfl,rfl,by simp⟩
    simp [sendMoves,run,move,found,Tick.finish,phase,todo,is]
  | cons queue others ih =>
    have sent : ∀ {u more}, t.send topology (outcome queue) = some (u,more) →
        run topology c (sendMoves i outcome (queue :: others)) =
          run topology { c with messages := c.messages ++ more, ticks := c.ticks.set i u }
            (if outcome queue = .acknowledged then sendMoves i outcome others else []) := by
      intro u more is
      simp only [sendMoves,run,move,found,is,bind,Option.bind_some]
    have lt := (List.getElem?_eq_some_iff.mp found).1
    have failing : outcome queue ≠ .acknowledged → ∃ more,
        t.send topology (outcome queue) = some ({ t with todo := rest, destinations := upcoming topology rest,
                                                         failed := t.failed ++ [event.id] },more) := by
      intro fails
      cases result : outcome queue with
      | acknowledged => exact absurd result fails
      | unacknowledged => exact ⟨[messageFor event queue],by simp only [Tick.send,phase,todo,is]⟩
      | refused => exact ⟨[],by simp only [Tick.send,phase,todo,is]⟩
    by_cases done : outcome queue = .acknowledged
    · have next := @sent { t with destinations := others, sent := t.sent + 1 } [messageFor event queue]
        (by simp only [Tick.send,phase,todo,is,done])
      obtain ⟨messages,u,ran,kept⟩ := @ih { c with messages := c.messages ++ [messageFor event queue],
                                                   ticks := c.ticks.set i { t with destinations := others, sent := t.sent + 1 } }
        { t with destinations := others, sent := t.sent + 1 } (by simp [lt]) phase todo rfl
      rw [next,if_pos done,ran]
      exact ⟨messages,u,by rw [List.set_set],by simpa [done] using kept⟩
    · obtain ⟨more,is⟩ := failing done
      rw [sent is,if_neg done]
      exact ⟨_,_,rfl,phase,rfl,rfl,rfl,by simp [done]⟩

theorem loopRuns {outcomes : ClaimedOutboxEvent Payload → QueueDefinition → CallOutcome}
    {events : List (ClaimedOutboxEvent Payload)} (found : c.ticks[i]? = some t) (phase : t.phase = .sending)
    (todo : t.todo = events) (destinations : t.destinations = upcoming topology events) :
    ∃ messages u, run topology c (events.flatMap (eventMoves topology i outcomes)) =
        some { c with messages := messages, ticks := c.ticks.set i u } ∧
      u.phase = .sending ∧ u.todo = [] ∧ u.isOpen = t.isOpen ∧
      u.finished = t.finished ++ (events.filter (delivers topology outcomes)).map ClaimedOutboxEvent.id := by
  have lt := (List.getElem?_eq_some_iff.mp found).1
  induction events generalizing c t with
  | nil =>
    have same : c.ticks.set i t = c.ticks := by
      obtain ⟨_,is⟩ := List.getElem?_eq_some_iff.mp found
      rw [← is,List.set_getElem_self]
    exact ⟨c.messages,t,by rw [same]; rfl,phase,todo,rfl,by simp⟩
  | cons event rest ih =>
    have queues : resolveDestinations event.eventType topology = t.destinations := by rw [destinations]; rfl
    obtain ⟨messages,u,ran,phaseU,todoU,destinationsU,openU,finishedU⟩ :=
      @eventRuns _ topology c i t (outcomes event) event rest found phase todo
    obtain ⟨last,v,loop,phaseV,todoV,openV,finishedV⟩ := @ih { c with messages := messages, ticks := c.ticks.set i u } u
      (by simp [lt]) phaseU todoU destinationsU (by simpa using lt)
    refine ⟨last,v,?_,phaseV,todoV,openV.trans openU,?_⟩
    · rw [List.flatMap_cons,runAppend,eventMoves,queues,ran,Option.bind_some,loop,List.set_set]
    · rw [finishedV,finishedU,List.filter_cons,← queues]
      unfold delivers
      split <;> simp

theorem sweepRows (quiet : ∀ t ∈ c.ticks, t.isOpen = false) (a : Attempt Payload) :
    ∃ next, runOutboxRelaySweep topology c a = some next ∧ (∀ t ∈ next.ticks, t.isOpen = false) ∧
      next.rows = markOutboxEventsPublished c.rows
        (((claimUnpublished c []).filter (delivers topology a.outcomes)).map ClaimedOutboxEvent.id) a.now := by
  obtain ⟨claimed,is⟩ : ∃ claimed, claimUnpublished c [] = claimed := ⟨_,rfl⟩
  have first : (c.ticks ++ [Tick.claiming topology claimed])[c.ticks.length]? = some (Tick.claiming topology claimed) := by simp
  obtain ⟨messages,u,ran,phase,todo,opened,finished⟩ := @loopRuns _ topology
    { c with ticks := c.ticks ++ [Tick.claiming topology claimed] } _ _ a.outcomes claimed first rfl rfl rfl
  have there : ((c.ticks ++ [Tick.claiming topology claimed]).set c.ticks.length u)[c.ticks.length]? = some u := by simp
  have isOpen : u.isOpen = true := opened
  have done : u.finished = (claimed.filter (delivers topology a.outcomes)).map ClaimedOutboxEvent.id := by
    simpa [Tick.claiming] using finished
  refine ⟨{ rows := markOutboxEventsPublished c.rows u.finished a.now, messages := messages,
            ticks := c.ticks ++ [{ u with phase := .over, isOpen := false }] },?_,?_,by rw [is,done]⟩
  · rw [runOutboxRelaySweep,is]
    simp only [run,move,is,bind,Option.bind_some]
    rw [runAppend,ran,Option.bind_some]
    simp [run,move,Tick.mark,phase,todo,isOpen]
  · intro t mem
    rcases List.mem_append.mp mem with old | new
    · exact quiet t old
    · rw [List.mem_singleton.mp new]

end

def Earlier (a b : OutboxRow Payload) : Prop := a.occurredAt ≤ b.occurredAt

instance : DecidableRel (Earlier : OutboxRow Payload → OutboxRow Payload → Prop) :=
  fun a b => inferInstanceAs (Decidable (a.occurredAt ≤ b.occurredAt))

instance : Std.Total (Earlier : OutboxRow Payload → OutboxRow Payload → Prop) :=
  ⟨fun a b => Int.le_total a.occurredAt b.occurredAt⟩

instance : IsTrans (OutboxRow Payload) Earlier := ⟨fun _ _ _ => Int.le_trans⟩

section
variable {topology : List QueueDefinition} {c next : State Payload} {fails : EventId → Bool}

theorem backlogSorted (c : State Payload) :
    backlog c = (c.rows.rows.filter (fun row => row.publishedAt.isNone)).insertionSort Earlier := rfl

theorem memBacklog {row : OutboxRow Payload} : row ∈ backlog c ↔ row ∈ c.rows.rows ∧ row.publishedAt = none := by
  rw [backlogSorted,List.mem_insertionSort,List.mem_filter,Option.isNone_iff_eq_none]

theorem backlogDistinct (c : State Payload) : ((backlog c).map (fun row => row.id)).Nodup := by
  have rows : ((c.rows.rows.filter (fun row => row.publishedAt.isNone)).map (fun row => row.id)).Nodup :=
    c.rows.distinct.sublist (List.filter_sublist.map _)
  exact ((List.perm_insertionSort Earlier _).map (fun row => row.id)).nodup_iff.mpr rows

theorem claimBacklog (quiet : ∀ t ∈ c.ticks, t.isOpen = false) :
    claimUnpublished c [] = ((backlog c).take relayBatchSize).map OutboxRow.toClaimedOutboxEvent := by
  have none_ : locked c.ticks = [] := by
    have closed : c.ticks.filter Tick.isOpen = [] := List.filter_eq_nil_iff.mpr (fun t mem => by simp [quiet t mem])
    rw [locked,closed]
    rfl
  simp only [claimUnpublished,backlog,none_,List.not_mem_nil,not_false_eq_true,decide_true,Bool.and_true]

omit c next in
theorem unmarked (ids : List EventId) (now : Instant) (rows : List (OutboxRow Payload)) :
    (rows.map (fun row => if decide (row.id ∈ ids) = true then { row with publishedAt := some now } else row)).filter
        (fun row => row.publishedAt.isNone) =
      (rows.filter (fun row => row.publishedAt.isNone)).filter (fun row => row.id ∉ ids) := by
  induction rows with
  | nil => rfl
  | cons row rest ih =>
    rw [List.map_cons,List.filter_cons,ih,List.filter_cons]
    by_cases mem : row.id ∈ ids <;> cases is : row.publishedAt <;> simp [mem,is]

theorem backlogMarked {ids : List EventId} {now : Instant} (is : next.rows = markOutboxEventsPublished c.rows ids now) :
    backlog next = (backlog c).filter (fun row => row.id ∉ ids) := by
  rw [backlogSorted,backlogSorted,Batches.filterInsertionSort,is]
  exact congrArg (List.insertionSort Earlier) (unmarked ids now c.rows.rows)

/- A send fails, in each tick, for the rows whose sends always fail, and for no others. -/
def Behaves (topology : List QueueDefinition) (fails : EventId → Bool) (rows : List (OutboxRow Payload))
    (a : Attempt Payload) : Prop :=
  ∀ row ∈ rows, delivers topology a.outcomes row.toClaimedOutboxEvent = !fails row.id

def failing (fails : EventId → Bool) (row : OutboxRow Payload) : Bool := fails row.id

theorem sweepRound (quiet : ∀ t ∈ c.ticks, t.isOpen = false) {a : Attempt Payload}
    (behaves : Behaves topology fails (backlog c) a) :
    ∃ next, runOutboxRelaySweep topology c a = some next ∧ (∀ t ∈ next.ticks, t.isOpen = false) ∧
      backlog next = Batches.round relayBatchSize (failing fails) (backlog c) := by
  obtain ⟨next,ran,quiet',rows⟩ := @sweepRows _ topology c quiet a
  refine ⟨next,ran,quiet',?_⟩
  rw [backlogMarked rows,claimBacklog quiet]
  have distinct := backlogDistinct c
  generalize backlog c = queue at behaves distinct ⊢
  have finished : ∀ id, id ∈ (((queue.take relayBatchSize).map OutboxRow.toClaimedOutboxEvent).filter
      (delivers topology a.outcomes)).map ClaimedOutboxEvent.id ↔
      ∃ row ∈ queue.take relayBatchSize, fails row.id = false ∧ row.id = id := by
    intro id
    simp only [List.mem_map,List.mem_filter]
    constructor
    · rintro ⟨event,⟨⟨row,mem,rfl⟩,done⟩,rfl⟩
      rw [behaves row (List.mem_of_mem_take mem)] at done
      exact ⟨row,mem,by simpa using done,rfl⟩
    · rintro ⟨row,mem,succeeds,rfl⟩
      exact ⟨_,⟨⟨row,mem,rfl⟩,by rw [behaves row (List.mem_of_mem_take mem),succeeds]; rfl⟩,rfl⟩
  have split : queue = queue.take relayBatchSize ++ queue.drop relayBatchSize := (List.take_append_drop _ _).symm
  have apart : ∀ x ∈ queue.take relayBatchSize, ∀ y ∈ queue.drop relayBatchSize, x.id ≠ y.id := by
    rw [split,List.map_append] at distinct
    exact fun x left y right => (List.nodup_append.mp distinct).2.2 _ (List.mem_map_of_mem left) _ (List.mem_map_of_mem right)
  generalize (((queue.take relayBatchSize).map OutboxRow.toClaimedOutboxEvent).filter
    (delivers topology a.outcomes)).map ClaimedOutboxEvent.id = ids at finished ⊢
  rw [Batches.round]
  conv_lhs => rw [split,List.filter_append]
  refine congrArg₂ (· ++ ·) (List.filter_congr (fun row mem => ?_)) (List.filter_eq_self.mpr (fun row mem => ?_))
  · have done : row.id ∈ ids ↔ fails row.id = false := by
      rw [finished]
      constructor
      · rintro ⟨other,-,succeeds,same⟩
        exact same ▸ succeeds
      · exact fun succeeds => ⟨row,mem,succeeds,rfl⟩
    simp [failing,done]
  · rw [decide_eq_true_eq,finished]
    rintro ⟨other,left,-,same⟩
    exact apart other left row mem same

theorem sweepsRounds (quiet : ∀ t ∈ c.ticks, t.isOpen = false) {attempts : List (Attempt Payload)}
    (behave : ∀ a ∈ attempts, Behaves topology fails (backlog c) a) :
    ∃ next, sweeps topology c attempts = some next ∧
      backlog next = Batches.rounds relayBatchSize (failing fails) attempts.length (backlog c) := by
  induction attempts generalizing c with
  | nil => exact ⟨c,rfl,rfl⟩
  | cons a rest ih =>
    obtain ⟨first,ran,quiet',round⟩ := sweepRound quiet (behave a List.mem_cons_self)
    obtain ⟨last,others,is⟩ := @ih first quiet' (fun b mem row there => behave b (List.mem_cons_of_mem _ mem) row
      ((Batches.roundSublist (backlog c)).subset (round ▸ there)))
    refine ⟨last,?_,?_⟩
    · rw [sweeps,ran]
      exact others
    · rw [is,round]
      rfl

theorem allPublished : (∀ row ∈ c.rows.rows, row.publishedAt = none → fails row.id = true) ↔
    Batches.waiting (failing fails) (backlog c) = [] := by
  rw [Batches.waiting,List.filter_eq_nil_iff]
  constructor
  · intro all row mem
    obtain ⟨there,unsent⟩ := memBacklog.mp mem
    simp [failing,all row there unsent]
  · intro all row mem unsent
    simpa [failing] using all row (memBacklog.mpr ⟨mem,unsent⟩)

def refusing (fails : EventId → Bool) : Attempt Payload :=
  ⟨fun event _ => if fails event.id then .refused else .acknowledged,0⟩

theorem refusingBehaves (sends : ∀ row ∈ backlog c, fails row.id = true →
    resolveDestinations row.eventType topology ≠ []) : Behaves topology fails (backlog c) (refusing fails) := by
  intro row there
  cases is : fails row.id with
  | false => simp [delivers,refusing,is]
  | true =>
    obtain ⟨queue,some_⟩ := List.exists_mem_of_ne_nil _ (sends row there is)
    simpa [delivers,refusing,is] using ⟨queue,some_⟩

def Drains (topology : List QueueDefinition) (fails : EventId → Bool) (c : State Payload) (n : Nat) : Prop :=
  ∀ attempts : List (Attempt Payload), attempts.length = n → (∀ a ∈ attempts, Behaves topology fails (backlog c) a) →
    ∃ next, sweeps topology c attempts = some next ∧
      ∀ row ∈ next.rows.rows, row.publishedAt = none → fails row.id = true

theorem drainsRounds (quiet : ∀ t ∈ c.ticks, t.isOpen = false)
    (sends : ∀ row ∈ backlog c, fails row.id = true → resolveDestinations row.eventType topology ≠ []) (n : Nat) :
    Drains topology fails c n ↔
      Batches.waiting (failing fails) (Batches.rounds relayBatchSize (failing fails) n (backlog c)) = [] := by
  constructor
  · intro all
    have behave : ∀ a ∈ List.replicate n (refusing fails), Behaves topology fails (backlog c) a :=
      fun a mem => (List.mem_replicate.mp mem).2 ▸ refusingBehaves sends
    obtain ⟨next,ran,published⟩ := all _ List.length_replicate behave
    obtain ⟨last,same,is⟩ := sweepsRounds quiet behave
    rw [ran] at same
    cases same
    rw [List.length_replicate] at is
    exact is ▸ allPublished.mp published
  · rintro drained attempts rfl behave
    obtain ⟨last,ran,is⟩ := sweepsRounds quiet behave
    exact ⟨last,ran,allPublished.mpr (is ▸ drained)⟩

/-- Some number of ticks publishes all that can be delivered, if and only if ahead of each row that can be there are
fewer rows that always fail than a batch has. -/
theorem relayDrains (quiet : ∀ t ∈ c.ticks, t.isOpen = false)
    (sends : ∀ row ∈ backlog c, fails row.id = true → resolveDestinations row.eventType topology ≠ []) :
    (∃ n, Drains topology fails c n) ↔ Batches.Room relayBatchSize (failing fails) (backlog c) := by
  rw [← Batches.drainsIff]
  exact exists_congr (drainsRounds quiet sends)

end

def pingThen (pings n : Nat) : OutboxRow Unit :=
  ⟨⟨n,if n < pings then "relay.VerificationPing.v1" else "tasks.TaskOverdue.v1","relay",toString n,(),n,"correlation"⟩,none⟩

def pingsThen (pings : Nat) : State Unit where
  rows := ⟨(List.range (pings + 1)).map (pingThen pings),by
    have same : ((fun row : OutboxRow Unit => row.id) ∘ pingThen pings) = id := rfl
    rw [List.map_map,same,List.map_id]
    exact List.nodup_range⟩
  messages := []
  ticks := []

def isPing (pings : Nat) (id : EventId) : Bool := decide (id < pings)

theorem pingsBacklog (pings : Nat) : backlog (pingsThen pings) =
    (List.range pings).map (pingThen pings) ++ [pingThen pings pings] := by
  have all : (pingsThen pings).rows.rows.filter (fun row => row.publishedAt.isNone) = (pingsThen pings).rows.rows := by
    refine List.filter_eq_self.mpr (fun row mem => ?_)
    obtain ⟨n,-,rfl⟩ := List.mem_map.mp mem
    rfl
  have sorted : (pingsThen pings).rows.rows.Pairwise Earlier := by
    refine List.pairwise_map.mpr (List.pairwise_lt_range.imp (fun {a b} less => ?_))
    change (a : Int) ≤ b
    omega
  rw [backlogSorted,all,sorted.insertionSort_eq]
  change (List.range (pings + 1)).map _ = _
  rw [List.range_succ,List.map_append]
  rfl

theorem pingsSend (pings : Nat) : ∀ row ∈ backlog (pingsThen pings), isPing pings row.id = true →
    resolveDestinations row.eventType queueTopology ≠ [] := by
  intro row mem ping
  obtain ⟨n,-,rfl⟩ := List.mem_map.mp (memBacklog.mp mem).1
  have less : n < pings := of_decide_eq_true ping
  simp [pingThen,less,resolveDestinations,queueTopology]

theorem onePingDrains : ∃ n, Drains queueTopology (isPing 1) (pingsThen 1) n := by
  refine (relayDrains (by simp [pingsThen]) (pingsSend 1)).mpr ?_
  intro before x after is succeeds
  have total := congrArg List.length is
  rw [pingsBacklog] at total
  simp only [List.length_append,List.length_map,List.length_range,List.length_cons,List.length_nil] at total
  have few := List.length_filter_le (failing (isPing 1)) before
  unfold relayBatchSize
  omega

theorem hundredPingsStay : ¬ ∀ (c : State Unit) (fails : EventId → Bool), (∀ t ∈ c.ticks, t.isOpen = false) →
    (∀ row ∈ backlog c, fails row.id = true → resolveDestinations row.eventType queueTopology ≠ []) →
      ∃ n, Drains queueTopology fails c n := by
  intro all
  have quiet : ∀ t ∈ (pingsThen 100).ticks, t.isOpen = false := by simp [pingsThen]
  have room := (Batches.drainsIff _).mp ((exists_congr (drainsRounds quiet (pingsSend 100))).mp
    (all (pingsThen 100) (isPing 100) quiet (pingsSend 100)))
  have less := room _ _ [] (pingsBacklog 100) (by decide)
  have full : ((List.range 100).map (pingThen 100)).filter (failing (isPing 100)) = (List.range 100).map (pingThen 100) := by
    refine List.filter_eq_self.mpr (fun row mem => ?_)
    obtain ⟨n,source,rfl⟩ := List.mem_map.mp mem
    simpa [failing,isPing,pingThen] using List.mem_range.mp source
  rw [full,List.length_map,List.length_range] at less
  exact absurd less (by decide)

end FamilyPlatform.Relay
