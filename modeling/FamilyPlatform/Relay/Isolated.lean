import FamilyPlatform.Relay.Consumer

/-! Which failures of one message stay with it. That of a handler does; one of the ledger,
or of the deletion, ends the poll and with it the rest of the batch. -/
namespace FamilyPlatform.Relay

def ReceivedMessage.event (parseJson : String → Option Json) (message : ReceivedMessage) : Option String :=
  match message.body, message.receiptHandle with
  | some body, some _ => parseEnvelope parseJson body
  | _, _ => none

def PollResult.countTurn (r : PollResult) (turn : Disposition) : PollResult :=
  r.count (if turn = .rejected then .failed else turn)

section
variable (parseJson : String → Option Json) (queueName : String)

def turns (s : Consumed) : List (ReceivedMessage × Answers) → List Disposition
  | [] => []
  | (message, answers) :: rest =>
    let (turn, next) := handleMessage parseJson queueName s message answers
    turn :: turns next rest

/- The poll resolves, with every message attempted and each that fails counted as failed. -/
def Isolated (s : Consumed) (batch : List (ReceivedMessage × Answers)) : Prop :=
  (pollOnce parseJson queueName s (some batch)).1.2 = some ((turns parseJson queueName s batch).foldl PollResult.countTurn ⟨0,0,0⟩)

def Known (s : Consumed) (before : List (ReceivedMessage × Answers)) (eventId : String) : Prop :=
  wasProcessed s.ledger queueName eventId = true ∨
    ∃ delivery ∈ before, delivery.1.event parseJson = some eventId ∧ delivery.2.handler = .resolved

/- The ledger answers and the deletion works, where they are called. -/
structure Spared (s : Consumed) (before : List (ReceivedMessage × Answers)) (eventId : String) (answers : Answers) :
    Prop where
  check : answers.check = .acknowledged
  duplicate : Known parseJson queueName s before eventId → answers.delete = .acknowledged
  running : ¬ Known parseJson queueName s before eventId → answers.handler ≠ .interrupted
  fresh : ¬ Known parseJson queueName s before eventId → answers.handler = .resolved →
    answers.mark = .acknowledged ∧ answers.delete = .acknowledged

def AllSpared (s : Consumed) (batch : List (ReceivedMessage × Answers)) : Prop :=
  ∀ before message answers after, batch = before ++ (message,answers) :: after →
    ∀ eventId, message.event parseJson = some eventId → Spared parseJson queueName s before eventId answers

end

section
variable {parseJson : String → Option Json} {queueName : String} {s : Consumed} {message : ReceivedMessage}
  {answers : Answers} {batch before : List (ReceivedMessage × Answers)}

theorem handleBatchTurns (result : PollResult) : (handleBatch parseJson queueName s result batch).1 =
    if .rejected ∈ turns parseJson queueName s batch then none
    else some ((turns parseJson queueName s batch).foldl PollResult.countTurn result) := by
  induction batch generalizing s result with
  | nil => rfl
  | cons delivery rest ih =>
    obtain ⟨message,answers⟩ := delivery
    simp only [handleBatch,turns]
    by_cases rejected : (handleMessage parseJson queueName s message answers).1 = .rejected
    · simp [rejected]
    · rw [if_neg rejected,ih]
      simp [PollResult.countTurn,rejected,Ne.symm rejected]

theorem noEvent (none_ : message.event parseJson = none) :
    handleMessage parseJson queueName s message answers = (.failed,s) := by
  unfold ReceivedMessage.event at none_
  unfold handleMessage
  split
  · rename_i body _ there handle
    simp only [there,handle] at none_
    rw [none_]
  · rfl

theorem someEvent {eventId : String} (is : message.event parseJson = some eventId) :
    handleMessage parseJson queueName s message answers =
      if answers.check ≠ .acknowledged then (.rejected,s)
      else if wasProcessed s.ledger queueName eventId then deleteMessage s message answers.delete .duplicate
      else handleEvent queueName s message eventId answers := by
  unfold ReceivedMessage.event at is
  cases there : message.body with
  | none => simp [there] at is
  | some body =>
    cases given : message.receiptHandle with
    | none => simp [there,given] at is
    | some handle =>
      rw [there,given] at is
      change parseEnvelope parseJson body = some eventId at is
      simp only [handleMessage,there,given,is]

theorem deleteRejected {outcome : CallOutcome} {done : Disposition} (other : done ≠ .rejected) :
    (deleteMessage s message outcome done).1 = .rejected ↔ outcome ≠ .acknowledged := by
  cases outcome <;> simp [deleteMessage,other]

theorem deleteLedger (s : Consumed) (outcome : CallOutcome) (done : Disposition) :
    (deleteMessage s message outcome done).2.ledger = s.ledger := by
  cases outcome <;> rfl

theorem knownNothing {eventId : String} :
    Known parseJson queueName s [] eventId ↔ wasProcessed s.ledger queueName eventId = true := by
  simp [Known]

theorem turnSpared {eventId : String} (is : message.event parseJson = some eventId) :
    (handleMessage parseJson queueName s message answers).1 ≠ .rejected ↔
      Spared parseJson queueName s [] eventId answers := by
  rw [someEvent is]
  by_cases check : answers.check = .acknowledged
  · rw [if_neg (by simpa using check)]
    cases known : wasProcessed s.ledger queueName eventId with
    | true =>
      have given : Known parseJson queueName s [] eventId := knownNothing.mpr known
      rw [if_pos rfl,ne_eq,deleteRejected (by simp),not_not]
      exact ⟨fun deleted => ⟨check,fun _ => deleted,fun fresh => absurd given fresh,fun fresh => absurd given fresh⟩,
        fun spared => spared.duplicate given⟩
    | false =>
      have fresh : ¬ Known parseJson queueName s [] eventId := by rw [knownNothing,known]; simp
      rw [if_neg (by simp)]
      have split : (handleEvent queueName s message eventId answers).1 ≠ .rejected ↔ answers.handler ≠ .interrupted ∧
          (answers.handler = .resolved → answers.mark = .acknowledged ∧ answers.delete = .acknowledged) := by
        unfold handleEvent
        cases answers.handler with
        | thrown => simp
        | interrupted => simp
        | resolved =>
          cases answers.mark with
          | acknowledged => simp [deleteRejected]
          | unacknowledged => simp
          | refused => simp
      rw [split]
      exact ⟨fun both => ⟨check,fun known => absurd known fresh,fun _ => both.1,fun _ => both.2⟩,
        fun spared => ⟨spared.running fresh,spared.fresh fresh⟩⟩
  · rw [if_pos check]
    exact ⟨fun kept => absurd rfl kept,fun spared => absurd spared.check check⟩

theorem knownAfter (kept : (handleMessage parseJson queueName s message answers).1 ≠ .rejected) (eventId : String) :
    Known parseJson queueName (handleMessage parseJson queueName s message answers).2 before eventId ↔
      Known parseJson queueName s ((message,answers) :: before) eventId := by
  have ledger : wasProcessed (handleMessage parseJson queueName s message answers).2.ledger queueName eventId = true ↔
      wasProcessed s.ledger queueName eventId = true ∨
        (message.event parseJson = some eventId ∧ answers.handler = .resolved) := by
    cases is : message.event parseJson with
    | none => rw [noEvent is]; simp
    | some own =>
      have spared := (turnSpared is).mp kept
      rw [someEvent is,if_neg (by simpa using spared.check)]
      cases known : wasProcessed s.ledger queueName own with
      | true =>
        rw [if_pos rfl,deleteLedger]
        refine ⟨.inl,?_⟩
        rintro (old | ⟨same,-⟩)
        · exact old
        · exact Option.some.inj same ▸ known
      | false =>
        have fresh : ¬ Known parseJson queueName s [] own := by rw [knownNothing,known]; simp
        rw [if_neg (by simp)]
        unfold handleEvent
        cases handler : answers.handler with
        | thrown => simp
        | interrupted => exact absurd handler (spared.running fresh)
        | resolved =>
          obtain ⟨mark,-⟩ := spared.fresh fresh handler
          simp only [mark,deleteLedger,wasMarked,Option.some.injEq,and_true]
          exact or_congr_right eq_comm
  unfold Known
  rw [ledger,or_assoc,List.exists_mem_cons_iff]

theorem sparedShift {first : ReceivedMessage × Answers} {next : Consumed} {eventId : String}
    (same : ∀ id, Known parseJson queueName next before id ↔ Known parseJson queueName s (first :: before) id) :
    Spared parseJson queueName next before eventId answers ↔ Spared parseJson queueName s (first :: before) eventId answers := by
  constructor
  · rintro ⟨check,duplicate,running,fresh⟩
    rw [same] at duplicate running fresh
    exact ⟨check,duplicate,running,fresh⟩
  · rintro ⟨check,duplicate,running,fresh⟩
    rw [← same] at duplicate running fresh
    exact ⟨check,duplicate,running,fresh⟩

/-- A poll keeps each failure to its message, if and only if the ledger answers and the deletion works wherever it calls
them. -/
theorem pollIsolated (parseJson : String → Option Json) (queueName : String) (s : Consumed)
    (batch : List (ReceivedMessage × Answers)) :
    Isolated parseJson queueName s batch ↔ AllSpared parseJson queueName s batch := by
  have resolves : Isolated parseJson queueName s batch ↔ .rejected ∉ turns parseJson queueName s batch := by
    simp only [Isolated,pollOnce,handleBatchTurns]
    split <;> simp [*]
  rw [resolves]
  clear resolves
  induction batch generalizing s with
  | nil => simp [turns,AllSpared]
  | cons delivery rest ih =>
    obtain ⟨message,answers⟩ := delivery
    have first : (handleMessage parseJson queueName s message answers).1 ≠ .rejected ↔
        ∀ eventId, message.event parseJson = some eventId → Spared parseJson queueName s [] eventId answers := by
      cases is : message.event parseJson with
      | none => simp [noEvent is]
      | some own =>
        rw [turnSpared is]
        simp
    have split : .rejected ∉ turns parseJson queueName s ((message,answers) :: rest) ↔
        (handleMessage parseJson queueName s message answers).1 ≠ .rejected ∧
          .rejected ∉ turns parseJson queueName (handleMessage parseJson queueName s message answers).2 rest := by
      rw [turns,List.mem_cons,not_or]
      exact and_congr_left (fun _ => not_congr eq_comm)
    refine (split.trans (and_congr first (ih _))).trans ?_
    constructor
    · rintro ⟨here,later⟩ before message' answers' after whole eventId is
      cases before with
      | nil =>
        cases whole
        exact here eventId is
      | cons head tail =>
        cases whole
        exact (sparedShift (knownAfter (first.mpr here))).mp (later tail message' answers' after rfl eventId is)
    · intro all
      have here := fun eventId is => all [] message answers rest rfl eventId is
      refine ⟨here,fun before message' answers' after whole eventId is => ?_⟩
      exact (sparedShift (knownAfter (first.mpr here))).mpr
        (all ((message,answers) :: before) message' answers' after (by rw [whole]; rfl) eventId is)

end

/- The first message is a duplicate that cannot be deleted; the handler of the second is never called. -/
def known : Consumed := ⟨markProcessed .empty "outbox-relay-verification" "e1",[],[]⟩

def pong : ReceivedMessage := ⟨some "\x7b\"eventId\":\"e2\"\x7d",some "r"⟩

def pongJson (body : String) : Option Json :=
  if some body = pong.body then some (.object [("eventId",.text "e2")]) else pingJson body

theorem deleteEndsPoll : ¬ ∀ (parseJson : String → Option Json) (queueName : String) (s : Consumed)
    (batch : List (ReceivedMessage × Answers)), (∀ delivery ∈ batch, delivery.2.handler ≠ .interrupted) →
      Isolated parseJson queueName s batch := by
  intro all
  have isolated := all pongJson "outbox-relay-verification" known
    [(ping,⟨.acknowledged,.resolved,.acknowledged,.refused⟩),(pong,⟨.acknowledged,.resolved,.acknowledged,.acknowledged⟩)]
    (by decide)
  have ended : (pollOnce pongJson "outbox-relay-verification" known (some
    [(ping,⟨.acknowledged,.resolved,.acknowledged,.refused⟩),
     (pong,⟨.acknowledged,.resolved,.acknowledged,.acknowledged⟩)])).1.2 = none := by decide +kernel
  rw [Isolated,ended] at isolated
  cases isolated

end FamilyPlatform.Relay
