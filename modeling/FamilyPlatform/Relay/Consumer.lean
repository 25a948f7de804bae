import Mathlib.Data.List.Nodup
import FamilyPlatform.Lib.Machine
import FamilyPlatform.Lib.Table
import FamilyPlatform.Relay.Outbox

/-! A consumer of a queue, that polls again and again: it asks the ledger before its
handler, writes to it after, and deletes a message last. -/
namespace FamilyPlatform.Relay

/- What `JSON.parse` makes of a text; of numbers only that they are numbers. -/
inductive Json where
  | null
  | boolean (value : Bool)
  | number (text : String)
  | text (value : String)
  | array (items : List Json)
  | object (fields : List (String × Json))

/- An array, too, is an object, without an `eventId`. -/
def parseEnvelope (parseJson : String → Option Json) (body : String) : Option String :=
  match parseJson body with
  | some (.object fields) => match fields.lookup "eventId" with
    | some (.text eventId) => some eventId
    | _ => none
  | _ => none

structure ProcessedEvent where
  queueName : String
  eventId : String
  deriving DecidableEq, Repr

abbrev Ledger := Table ProcessedEvent id

def wasProcessed (ledger : Ledger) (queueName eventId : String) : Bool := (ledger.find ⟨queueName,eventId⟩).isSome

def markProcessed (ledger : Ledger) (queueName eventId : String) : Ledger :=
  ledger.upsert ⟨queueName,eventId⟩ id (fun _ => rfl)

structure ReceivedMessage where
  body : Option String
  receiptHandle : Option String
  deriving DecidableEq, Repr

inductive HandlerAnswer where
  | resolved | thrown | interrupted
  deriving DecidableEq, Repr

/- How the calls for a message turn out, where they are made. A crash during one is a
failure after which nothing more comes. -/
structure Answers where
  check : CallOutcome
  handler : HandlerAnswer
  mark : CallOutcome
  delete : CallOutcome
  deriving DecidableEq, Repr

structure PollResult where
  handled : Nat
  duplicates : Nat
  failed : Nat
  deriving DecidableEq, Repr

structure Consumed where
  ledger : Ledger
  succeeded : List String
  deleted : List ReceivedMessage

/- What comes of one message: its count, or an error that ends the poll. -/
inductive Disposition where
  | handled | duplicate | failed | rejected
  deriving DecidableEq, Repr

def PollResult.count (r : PollResult) : Disposition → PollResult
  | .handled => { r with handled := r.handled + 1 }
  | .duplicate => { r with duplicates := r.duplicates + 1 }
  | .failed => { r with failed := r.failed + 1 }
  | .rejected => r

section
variable (parseJson : String → Option Json) (queueName : String)

def deleteMessage (s : Consumed) (message : ReceivedMessage) (outcome : CallOutcome) (done : Disposition) :
    Disposition × Consumed :=
  match outcome with
  | .acknowledged => (done, { s with deleted := s.deleted ++ [message] })
  | .unacknowledged => (.rejected, { s with deleted := s.deleted ++ [message] })
  | .refused => (.rejected, s)

def handleEvent (s : Consumed) (message : ReceivedMessage) (eventId : String) (answers : Answers) :
    Disposition × Consumed :=
  match answers.handler with
  | .thrown => (.failed, s)
  | .interrupted => (.rejected, s)
  | .resolved =>
    let done := { s with succeeded := s.succeeded ++ [eventId] }
    let recorded := { done with ledger := markProcessed s.ledger queueName eventId }
    match answers.mark with
    | .acknowledged => deleteMessage recorded message answers.delete .handled
    | .unacknowledged => (.rejected, recorded)
    | .refused => (.rejected, done)

def handleMessage (s : Consumed) (message : ReceivedMessage) (answers : Answers) : Disposition × Consumed :=
  match message.body, message.receiptHandle with
  | some body, some _ => match parseEnvelope parseJson body with
    | none => (.failed, s)
    | some eventId =>
      if answers.check ≠ .acknowledged then (.rejected, s)
      else if wasProcessed s.ledger queueName eventId then deleteMessage s message answers.delete .duplicate
      else handleEvent queueName s message eventId answers
  | _, _ => (.failed, s)

def handleBatch (s : Consumed) (result : PollResult) : List (ReceivedMessage × Answers) → Option PollResult × Consumed
  | [] => (some result, s)
  | (message, answers) :: rest =>
    let (disposition, next) := handleMessage parseJson queueName s message answers
    if disposition = .rejected then (none, next) else handleBatch next (result.count disposition) rest

/- Without a batch where the queue could not be asked. With the batch, what becomes of the poll. -/
def pollOnce (s : Consumed) (received : Option (List (ReceivedMessage × Answers))) :
    (Nat × Option PollResult) × Consumed :=
  match received with
  | none => ((0, none), s)
  | some batch =>
    let (result, next) := handleBatch parseJson queueName s ⟨0,0,0⟩ batch
    ((batch.length, result), next)

def consume (s : Consumed) (polls : List (Option (List (ReceivedMessage × Answers)))) :
    List (Nat × Option PollResult) × Consumed :=
  Machine.run (pollOnce parseJson queueName) s polls

/- Nothing fails between a handler's success and its record. -/
def Recorded (received : Option (List (ReceivedMessage × Answers))) : Prop :=
  ∀ batch, received = some batch → ∀ delivery ∈ batch, delivery.2.handler = .resolved → delivery.2.mark ≠ .refused

structure Consistent (s : Consumed) : Prop where
  once : s.succeeded.Nodup
  ledger : ∀ eventId, wasProcessed s.ledger queueName eventId = true ↔ eventId ∈ s.succeeded
  deleted : ∀ message ∈ s.deleted, ∃ body eventId, message.body = some body ∧
    parseEnvelope parseJson body = some eventId ∧ eventId ∈ s.succeeded

def Unhandled (s : Consumed) (message : ReceivedMessage) (answers : Answers) : Prop :=
  (∀ body, message.body = some body → parseEnvelope parseJson body = none) ∨
  ∃ body eventId, message.body = some body ∧ parseEnvelope parseJson body = some eventId ∧
    wasProcessed s.ledger queueName eventId = false ∧ answers.handler ≠ .resolved

end

section
variable {parseJson : String → Option Json} {queueName : String} {s : Consumed} {message : ReceivedMessage}
  {answers : Answers}

theorem unhandledNothing (unhandled : Unhandled parseJson queueName s message answers) :
    (handleMessage parseJson queueName s message answers).2 = s := by
  unfold handleMessage
  split
  · rename_i body _ there _
    rcases unhandled with unparsable | ⟨body',eventId,there',parsed,fresh,failing⟩
    · rw [unparsable body there]
    · obtain rfl := Option.some.inj (there.symm.trans there')
      simp only [parsed,fresh,Bool.false_eq_true,if_false]
      split
      · rfl
      · unfold handleEvent
        cases handler : answers.handler with
        | thrown => rfl
        | interrupted => rfl
        | resolved => exact absurd handler failing
  · rfl

theorem memLedger (ledger : Ledger) (queue eventId : String) :
    wasProcessed ledger queue eventId = true ↔ (⟨queue,eventId⟩ : ProcessedEvent) ∈ ledger.rows := by
  unfold wasProcessed
  constructor
  · intro there
    obtain ⟨row,found⟩ := Option.isSome_iff_exists.mp there
    obtain ⟨mem,same⟩ := Table.findSource found
    exact same ▸ mem
  · intro mem
    rw [show ledger.find ⟨queue,eventId⟩ = some ⟨queue,eventId⟩ from Table.findMember mem]
    rfl

theorem wasMarked (ledger : Ledger) (queue eventId other : String) :
    wasProcessed (markProcessed ledger queue eventId) queue other = true ↔
      wasProcessed ledger queue other = true ∨ other = eventId := by
  rw [memLedger,memLedger,markProcessed,Table.memUpsert]
  constructor
  · rintro (⟨old,-⟩ | ⟨-,new⟩ | ⟨row,mem,-,same⟩)
    · exact .inl old
    · exact .inr (congrArg ProcessedEvent.eventId new)
    · exact .inl (same ▸ mem)
  · by_cases there : (⟨queue,eventId⟩ : ProcessedEvent) ∈ ledger.rows
    · rintro (old | rfl)
      · by_cases same : other = eventId
        · subst same
          exact .inr (.inr ⟨_,old,rfl,rfl⟩)
        · exact .inl ⟨old,fun is => same (congrArg ProcessedEvent.eventId is)⟩
      · exact .inr (.inr ⟨_,there,rfl,rfl⟩)
    · have fresh : ∀ row ∈ ledger.rows, id row ≠ id (⟨queue,eventId⟩ : ProcessedEvent) :=
        fun row mem same => there ((show row = ⟨queue,eventId⟩ from same) ▸ mem)
      rintro (old | rfl)
      · exact .inl ⟨old,fresh _ old⟩
      · exact .inr (.inl ⟨fresh,rfl⟩)

theorem deleteKeeps {body eventId : String} {outcome : CallOutcome} {done : Disposition}
    (consistent : Consistent parseJson queueName s) (there : message.body = some body)
    (parsed : parseEnvelope parseJson body = some eventId) (mem : eventId ∈ s.succeeded) :
    Consistent parseJson queueName (deleteMessage s message outcome done).2 := by
  have deleted : ∀ m ∈ s.deleted ++ [message], ∃ body eventId, m.body = some body ∧
      parseEnvelope parseJson body = some eventId ∧ eventId ∈ s.succeeded := by
    intro m source
    rcases List.mem_append.mp source with old | new
    · exact consistent.deleted m old
    · rw [List.mem_singleton.mp new]
      exact ⟨body,eventId,there,parsed,mem⟩
  cases outcome with
  | acknowledged => exact ⟨consistent.once,consistent.ledger,deleted⟩
  | unacknowledged => exact ⟨consistent.once,consistent.ledger,deleted⟩
  | refused => exact consistent

theorem handleEventKeeps {body eventId : String} (consistent : Consistent parseJson queueName s)
    (there : message.body = some body) (parsed : parseEnvelope parseJson body = some eventId)
    (fresh : wasProcessed s.ledger queueName eventId = false)
    (recorded : answers.handler = .resolved → answers.mark ≠ .refused) :
    Consistent parseJson queueName (handleEvent queueName s message eventId answers).2 := by
  have absent : eventId ∉ s.succeeded := by
    intro mem
    rw [(consistent.ledger eventId).mpr mem] at fresh
    cases fresh
  have done : Consistent parseJson queueName
      { s with succeeded := s.succeeded ++ [eventId], ledger := markProcessed s.ledger queueName eventId } := by
    refine ⟨?_,fun id => ?_,fun m mem => ?_⟩
    · exact List.nodup_append.mpr ⟨consistent.once,List.nodup_singleton _,fun a left b right same =>
        absent ((List.mem_singleton.mp right) ▸ same ▸ left)⟩
    · rw [wasMarked,consistent.ledger]
      simp
    · obtain ⟨body,id,is,reads,old⟩ := consistent.deleted m mem
      exact ⟨body,id,is,reads,List.mem_append_left _ old⟩
  unfold handleEvent
  cases handler : answers.handler with
  | thrown => exact consistent
  | interrupted => exact consistent
  | resolved =>
    cases mark : answers.mark with
    | acknowledged => exact deleteKeeps done there parsed (List.mem_append_right _ List.mem_cons_self)
    | unacknowledged => exact done
    | refused => exact absurd mark (recorded handler)

theorem handleMessageKeeps (message : ReceivedMessage) (consistent : Consistent parseJson queueName s)
    (recorded : answers.handler = .resolved → answers.mark ≠ .refused) :
    Consistent parseJson queueName (handleMessage parseJson queueName s message answers).2 := by
  unfold handleMessage
  split
  · rename_i body _ there _
    split
    · exact consistent
    · rename_i eventId parsed
      split
      · exact consistent
      · split
        · rename_i known
          exact deleteKeeps consistent there parsed ((consistent.ledger eventId).mp known)
        · rename_i unknown
          exact handleEventKeeps consistent there parsed (by simpa using unknown) recorded
  · exact consistent

theorem handleBatchKeeps (result : PollResult) {batch : List (ReceivedMessage × Answers)}
    (consistent : Consistent parseJson queueName s) (recorded : Recorded (some batch)) :
    Consistent parseJson queueName (handleBatch parseJson queueName s result batch).2 ∧
      ∀ r, (handleBatch parseJson queueName s result batch).1 = some r →
        r.handled + r.duplicates + r.failed = result.handled + result.duplicates + result.failed + batch.length := by
  induction batch generalizing s result with
  | nil => exact ⟨consistent,by rintro r ⟨⟩; rfl⟩
  | cons delivery rest ih =>
    obtain ⟨message,answers⟩ := delivery
    have kept := handleMessageKeeps message consistent (recorded _ rfl (message,answers) List.mem_cons_self)
    simp only [handleBatch]
    split
    · exact ⟨kept,by rintro r ⟨⟩⟩
    · rename_i ended
      obtain ⟨last,counted⟩ := @ih _ (result.count (handleMessage parseJson queueName s message answers).1) kept
        (fun batch is delivery mem => recorded _ rfl delivery (by cases is; exact List.mem_cons_of_mem _ mem))
      refine ⟨last,fun r is => ?_⟩
      rw [counted r is,List.length_cons]
      cases disposition : (handleMessage parseJson queueName s message answers).1 with
      | rejected => exact absurd disposition ended
      | _ => simp only [PollResult.count]; omega

/-- Of any deliveries and any failures but that of recording a success. -/
theorem consumesOnce (parseJson : String → Option Json) (queueName : String) (ledger : Ledger)
    (others : ∀ row ∈ ledger.rows, row.queueName ≠ queueName)
    (polls : List (Option (List (ReceivedMessage × Answers)))) (recorded : ∀ received ∈ polls, Recorded received) :
    (∀ outcome ∈ (consume parseJson queueName ⟨ledger,[],[]⟩ polls).1, ∀ r, outcome.2 = some r →
      r.handled + r.duplicates + r.failed = outcome.1) ∧
    Consistent parseJson queueName (consume parseJson queueName ⟨ledger,[],[]⟩ polls).2 ∧
    ∀ s message answers, Unhandled parseJson queueName s message answers →
      (handleMessage parseJson queueName s message answers).2 = s := by
  have base : Consistent parseJson queueName ⟨ledger,[],[]⟩ := by
    refine ⟨List.nodup_nil,fun eventId => ?_,by simp⟩
    rw [memLedger]
    simp only [List.not_mem_nil,iff_false]
    exact fun mem => others _ mem rfl
  have kept := Machine.runKeepsWhere (pollOnce parseJson queueName) Recorded (Consistent parseJson queueName)
    (fun outcome => ∀ r, outcome.2 = some r → r.handled + r.duplicates + r.failed = outcome.1) ?_ base recorded
  · exact ⟨kept.1,kept.2,fun s message answers => unhandledNothing⟩
  · intro s received recorded consistent
    cases received with
    | none => exact ⟨by rintro r ⟨⟩,consistent⟩
    | some batch =>
      obtain ⟨next,counted⟩ := handleBatchKeeps ⟨0,0,0⟩ consistent recorded
      exact ⟨fun r is => (counted r is).trans (Nat.zero_add _),next⟩

end
def ping : ReceivedMessage := ⟨some "\x7b\"eventId\":\"e1\"\x7d",some "r"⟩

def pingJson (body : String) : Option Json :=
  if some body = ping.body then some (.object [("eventId",.text "e1")]) else none

def pings : List (Option (List (ReceivedMessage × Answers))) :=
  [some [(ping,⟨.acknowledged,.thrown,.acknowledged,.acknowledged⟩)],
   some [(ping,⟨.acknowledged,.resolved,.acknowledged,.acknowledged⟩),
     (⟨some "ping",some "r"⟩,⟨.acknowledged,.resolved,.acknowledged,.acknowledged⟩),
     (ping,⟨.acknowledged,.resolved,.acknowledged,.acknowledged⟩)]]

theorem pingsConsumed : (consume pingJson "outbox-relay-verification" ⟨.empty,[],[]⟩ pings).1 =
      [(1,some ⟨0,0,1⟩),(3,some ⟨1,1,1⟩)] ∧
    (∀ outcome ∈ (consume pingJson "outbox-relay-verification" ⟨.empty,[],[]⟩ pings).1, ∀ r, outcome.2 = some r →
      r.handled + r.duplicates + r.failed = outcome.1) ∧
    Consistent pingJson "outbox-relay-verification" (consume pingJson "outbox-relay-verification" ⟨.empty,[],[]⟩ pings).2 ∧
    ∀ s message answers, Unhandled pingJson "outbox-relay-verification" s message answers →
      (handleMessage pingJson "outbox-relay-verification" s message answers).2 = s := by
  refine ⟨by decide +kernel,consumesOnce pingJson "outbox-relay-verification" .empty (by simp) pings ?_⟩
  intro received mem batch is delivery source
  simp only [pings,List.mem_cons,List.not_mem_nil,or_false] at mem
  rcases mem with rfl | rfl <;> cases is <;> simp only [List.mem_cons,List.not_mem_nil,or_false] at source
  · subst source
    decide
  · rcases source with rfl | rfl | rfl <;> decide

end FamilyPlatform.Relay
