import Mathlib.Data.List.Sort
import FamilyPlatform.Lib.Table
import FamilyPlatform.Kernel.Values

/-! The outbox and its relay. A tick claims rows that no other tick holds, sends them,
marks them and commits in one transaction; what it has sent stays sent. -/
namespace FamilyPlatform.Relay

abbrev EventId := Nat

structure QueueDefinition where
  name : String
  dlqName : String
  maxReceiveCount : Nat
  subscribedEventTypes : List String
  deriving DecidableEq, Repr

def queueTopology : List QueueDefinition :=
  [⟨"outbox-relay-verification","outbox-relay-verification-dlq",5,["relay.VerificationPing.v1"]⟩]

def resolveDestinations (eventType : String) (topology : List QueueDefinition) : List QueueDefinition :=
  topology.filter (fun queue => eventType ∈ queue.subscribedEventTypes)

structure ClaimedOutboxEvent (Payload : Type) where
  id : EventId
  eventType : String
  aggregateType : String
  aggregateId : String
  payload : Payload
  occurredAt : Instant
  correlationId : String
  deriving DecidableEq, Repr

structure OutboxRow (Payload : Type) extends ClaimedOutboxEvent Payload where
  publishedAt : Option Instant
  deriving DecidableEq, Repr

/- Before it becomes a text: the seven fields that are forwarded. -/
structure Envelope (Payload : Type) where
  eventId : EventId
  eventType : String
  aggregateType : String
  aggregateId : String
  occurredAt : Instant
  correlationId : String
  payload : Payload
  deriving DecidableEq, Repr

structure MessageToPublish (Payload : Type) where
  queueName : String
  body : Envelope Payload
  deduplicationId : EventId
  deriving DecidableEq, Repr

variable {Payload : Type}

def serialiseEnvelope (event : ClaimedOutboxEvent Payload) : Envelope Payload :=
  ⟨event.id,event.eventType,event.aggregateType,event.aggregateId,event.occurredAt,event.correlationId,event.payload⟩

def messageFor (event : ClaimedOutboxEvent Payload) (queue : QueueDefinition) : MessageToPublish Payload :=
  ⟨queue.name,serialiseEnvelope event,event.id⟩

/- Of a call to another system: one that fails may have had its effect or not. -/
inductive CallOutcome where
  | acknowledged | unacknowledged | refused
  deriving DecidableEq, Repr

inductive Phase where
  | sending
  | marked (time : Instant)
  | over
  deriving DecidableEq, Repr

/- A tick in its loop: the events still to do, of the first of them the queues still to
send to, and whether its transaction, which holds the rows, is open. -/
structure Tick (Payload : Type) where
  claimed : List (ClaimedOutboxEvent Payload)
  todo : List (ClaimedOutboxEvent Payload)
  destinations : List QueueDefinition
  finished : List EventId
  failed : List EventId
  sent : Nat
  phase : Phase
  isOpen : Bool
  deriving DecidableEq, Repr

def Tick.ids (t : Tick Payload) : List EventId := t.claimed.map ClaimedOutboxEvent.id

structure State (Payload : Type) where
  rows : Table (OutboxRow Payload) (fun row => row.id)
  messages : List (MessageToPublish Payload)
  ticks : List (Tick Payload)

def begins : State Payload := ⟨.empty,[],[]⟩

inductive Move (Payload : Type) where
  | append (event : ClaimedOutboxEvent Payload)
  | claim (passedOver : List EventId)
  | send (tick : Nat) (outcome : CallOutcome)
  | finish (tick : Nat)
  | mark (tick : Nat) (now : Instant)
  | commit (tick : Nat)
  | rollback (tick : Nat)
  | crash (tick : Nat)
  deriving DecidableEq, Repr

def relayBatchSize : Nat := 100

def locked (ticks : List (Tick Payload)) : List EventId := (ticks.filter Tick.isOpen).flatMap Tick.ids

/- `FOR UPDATE SKIP LOCKED`. A lock that was gone before the scan was over is passed over too. -/
def claimUnpublished (c : State Payload) (passedOver : List EventId) : List (ClaimedOutboxEvent Payload) :=
  (((c.rows.rows.filter (fun row => row.publishedAt.isNone && row.id ∉ locked c.ticks && row.id ∉ passedOver)).insertionSort
    (fun a b => a.occurredAt ≤ b.occurredAt)).take relayBatchSize).map OutboxRow.toClaimedOutboxEvent

def markOutboxEventsPublished (rows : Table (OutboxRow Payload) (fun row => row.id)) (ids : List EventId)
    (now : Instant) : Table (OutboxRow Payload) (fun row => row.id) :=
  rows.updateWhere (fun row => row.id ∈ ids) (fun row => { row with publishedAt := some now }) (fun _ => rfl)

section
variable (topology : List QueueDefinition)

def upcoming : List (ClaimedOutboxEvent Payload) → List QueueDefinition
  | [] => []
  | event :: _ => resolveDestinations event.eventType topology

def Tick.claiming (claimed : List (ClaimedOutboxEvent Payload)) : Tick Payload :=
  ⟨claimed,claimed,upcoming topology claimed,[],[],0,.sending,true⟩

/- The first failure of an event ends its sends. -/
def Tick.send (t : Tick Payload) (outcome : CallOutcome) : Option (Tick Payload × List (MessageToPublish Payload)) :=
  match t.phase, t.todo, t.destinations with
  | .sending, event :: rest, queue :: others =>
    let failing := { t with todo := rest, destinations := upcoming topology rest, failed := t.failed ++ [event.id] }
    match outcome with
    | .acknowledged => some ({ t with destinations := others, sent := t.sent + 1 }, [messageFor event queue])
    | .unacknowledged => some (failing, [messageFor event queue])
    | .refused => some (failing, [])
  | _, _, _ => none

def Tick.finish (t : Tick Payload) : Option (Tick Payload) :=
  match t.phase, t.todo, t.destinations with
  | .sending, event :: rest, [] =>
    some { t with todo := rest, destinations := upcoming topology rest, finished := t.finished ++ [event.id] }
  | _, _, _ => none

/- In a transaction that is gone, to mark throws. -/
def Tick.mark (t : Tick Payload) (now : Instant) : Option (Tick Payload) :=
  match t.phase, t.todo with
  | .sending, [] => some { t with phase := if t.isOpen then .marked now else .over }
  | _, _ => none

def move (c : State Payload) : Move Payload → Option (State Payload)
  | .append event => do
    let rows ← c.rows.insert { event with publishedAt := none }
    some { c with rows := rows }
  | .claim passedOver => some { c with ticks := c.ticks ++ [.claiming topology (claimUnpublished c passedOver)] }
  | .send tick outcome => do
    let t ← c.ticks[tick]?
    let (next, messages) ← t.send topology outcome
    some { c with messages := c.messages ++ messages, ticks := c.ticks.set tick next }
  | .finish tick => do
    let t ← c.ticks[tick]?
    let next ← t.finish topology
    some { c with ticks := c.ticks.set tick next }
  | .mark tick now => do
    let t ← c.ticks[tick]?
    let next ← t.mark now
    some { c with ticks := c.ticks.set tick next }
  | .commit tick => do
    let t ← c.ticks[tick]?
    match t.phase, t.isOpen with
    | .marked now, true =>
      some { c with rows := markOutboxEventsPublished c.rows t.finished now,
                    ticks := c.ticks.set tick { t with phase := .over, isOpen := false } }
    | _, _ => none
  | .rollback tick => do
    let t ← c.ticks[tick]?
    if t.isOpen then some { c with ticks := c.ticks.set tick { t with isOpen := false } } else none
  | .crash tick => do
    let t ← c.ticks[tick]?
    if t.phase = .over then none
    else some { c with ticks := c.ticks.set tick { t with phase := .over, isOpen := false } }

def run (c : State Payload) : List (Move Payload) → Option (State Payload)
  | [] => some c
  | m :: rest => do
    let next ← move topology c m
    run next rest

end
end FamilyPlatform.Relay
