import Mathlib.Data.Fintype.Basic
import Mathlib.Data.List.FinRange
import FamilyPlatform.Kernel.Values
import FamilyPlatform.Lib.Steps

/-! The sweep scheduler: a chain of timers for each sweep, the runs that they start, and
what is left to do of a tick once its run has ended. Timers fire, runs end and heartbeats are
written in any order; what stands between two awaits is one step. -/
namespace FamilyPlatform.Worker

abbrev TimerId := Nat
abbrev RunId := Nat

def stallCadenceMultiple : Nat := 3

structure RegisteredSweep where
  name : String
  cadenceSeconds : Nat
  deriving DecidableEq, Repr

def RegisteredSweep.cadenceMs (sweep : RegisteredSweep) : Nat := sweep.cadenceSeconds * 1000

structure SweepState where
  timer : Option TimerId
  inFlight : Bool
  lastSuccessAt : Option Instant
  stallReported : Bool
  running : Option RunId
  deriving DecidableEq, Repr

def SweepState.initial : SweepState := ⟨none,false,none,false,none⟩

structure Timer (n : Nat) where
  id : TimerId
  sweep : Fin n
  delayMs : Nat
  deriving DecidableEq, Repr

/- Where a tick waits: for its run, for its own turn after it, or for the heartbeat. -/
inductive Phase where
  | running | settled | beating
  deriving DecidableEq, Repr

structure Tick (n : Nat) where
  id : RunId
  sweep : Fin n
  phase : Phase
  deriving DecidableEq, Repr

inductive LogLine (n : Nat) where
  | scheduled (sweep : Fin n) (cadenceSeconds : Nat)
  | skippedOverlap (sweep : Fin n)
  | succeeded (sweep : Fin n) (summary : String)
  | failed (sweep : Fin n) (errorName : String)
  | sweepStalled (sweep : Fin n) (lastSuccessAgeSeconds : Int) (thresholdSeconds : Nat)
  | heartbeatWriteFailed (errorName : String)
  | stopTimeout (waitedMs : Nat)
  deriving DecidableEq, Repr

def LogLine.sweep {n : Nat} : LogLine n → Option (Fin n)
  | scheduled i _ | skippedOverlap i | succeeded i _ | failed i _ | sweepStalled i _ _ => some i
  | heartbeatWriteFailed _ | stopTimeout _ => none

structure Awaited where
  runs : List RunId
  deadlineMs : Nat
  deriving DecidableEq, Repr

/- The fields of the scheduler, and what the runtime holds for it: the timers that are set,
the ticks that wait, the call of `stop` that has not returned, and the file of the heartbeat. -/
structure SweepScheduler (n : Nat) where
  states : Fin n → SweepState
  started : Bool
  stopping : Bool
  timers : List (Timer n)
  ticks : List (Tick n)
  stop : Option Awaited
  drawn : Nat
  begun : List (Fin n)
  heartbeat : Option Instant
  log : List (LogLine n)

inductive Event (n : Nat) where
  | start (jitterMs : Fin n → Nat)
  | stop (deadlineMs : Nat)
  | stopReturns (timedOut : Bool)
  | fires (timer : Timer n)
  | runEnds (tick : Tick n) (outcome : Except String String) (now : Instant)
  | resumes (tick : Tick n)
  | heartbeatEnds (tick : Tick n) (written : Except String Instant) (now : Instant)

namespace SweepScheduler
variable {n : Nat} (sweeps : Fin n → RegisteredSweep)

def initial : SweepScheduler n := ⟨fun _ => .initial,false,false,[],[],none,0,[],none,[]⟩

def withState (c : SweepScheduler n) (i : Fin n) (change : SweepState → SweepState) : SweepScheduler n :=
  { c with states := Function.update c.states i (change (c.states i)) }

def logged (c : SweepScheduler n) (line : LogLine n) : SweepScheduler n := { c with log := c.log ++ [line] }

def arm (c : SweepScheduler n) (i : Fin n) (delayMs : Nat) : SweepScheduler n :=
  if c.stopping then c
  else { c.withState i (fun s => { s with timer := some c.drawn }) with
         timers := c.timers ++ [⟨c.drawn,i,delayMs⟩], drawn := c.drawn + 1 }

def starts (c : SweepScheduler n) (jitterMs : Fin n → Nat) : SweepScheduler n :=
  if c.started then c
  else (List.finRange n).foldl (fun c i => (c.logged (.scheduled i (sweeps i).cadenceSeconds)).arm i (jitterMs i))
    { c with started := true, stopping := false }

def clearTimer (c : SweepScheduler n) (i : Fin n) : SweepScheduler n :=
  match (c.states i).timer with
  | none => c
  | some id => { c.withState i (fun s => { s with timer := none }) with timers := c.timers.filter (fun t => t.id ≠ id) }

def stops (c : SweepScheduler n) (deadlineMs : Nat) : SweepScheduler n :=
  let cleared := (List.finRange n).foldl clearTimer { c with stopping := true }
  let running := (List.finRange n).filterMap (fun i => (cleared.states i).running)
  if running = [] then { cleared with started := false } else { cleared with stop := some ⟨running,deadlineMs⟩ }

/- Of the runs that are waited for, none is left, or the deadline has passed. -/
def stopReturns (c : SweepScheduler n) (awaited : Awaited) (timedOut : Bool) : Option (SweepScheduler n) :=
  let returned := { c with started := false, stop := none }
  if timedOut then some (returned.logged (.stopTimeout awaited.deadlineMs))
  else if c.ticks.any (fun t => t.phase = .running ∧ t.id ∈ awaited.runs) then none else some returned

/- As far as its first wait; the next tick is armed before this one runs. -/
def tick (c : SweepScheduler n) (i : Fin n) : SweepScheduler n :=
  if c.stopping then c
  else
    let armed := c.arm i (sweeps i).cadenceMs
    let id := armed.drawn
    if (armed.states i).inFlight then
      { armed.logged (.skippedOverlap i) with ticks := armed.ticks ++ [⟨id,i,.beating⟩], drawn := id + 1 }
    else
      { armed.withState i (fun s => { s with inFlight := true, running := some id }) with
        ticks := armed.ticks ++ [⟨id,i,.running⟩], drawn := id + 1, begun := armed.begun ++ [i] }

def fires (c : SweepScheduler n) (t : Timer n) : SweepScheduler n :=
  ({ c with timers := c.timers.erase t }.withState t.sweep (fun s => { s with timer := none })).tick sweeps t.sweep

def moved (c : SweepScheduler n) (t : Tick n) (phase : Phase) : SweepScheduler n :=
  { c with ticks := c.ticks.erase t ++ [{ t with phase := phase }] }

def runEnds (c : SweepScheduler n) (t : Tick n) (outcome : Except String String) (now : Instant) : SweepScheduler n :=
  match outcome with
  | .ok summary =>
    ((c.moved t .settled).withState t.sweep (fun s => { s with lastSuccessAt := some now, stallReported := false })).logged
      (.succeeded t.sweep summary)
  | .error name => (c.moved t .settled).logged (.failed t.sweep name)

def resumes (c : SweepScheduler n) (t : Tick n) : SweepScheduler n :=
  (c.moved t .beating).withState t.sweep (fun s => { s with inFlight := false, running := none })

def checkStalled (c : SweepScheduler n) (i : Fin n) (now : Instant) : SweepScheduler n :=
  let threshold := (sweeps i).cadenceMs * stallCadenceMultiple
  match (c.states i).lastSuccessAt with
  | none => c
  | some last =>
    if threshold < now - last ∧ (c.states i).stallReported = false then
      (c.withState i (fun s => { s with stallReported := true })).logged
        (.sweepStalled i ((now - last) / 1000) (threshold / 1000))
    else c

def heartbeatEnds (c : SweepScheduler n) (t : Tick n) (written : Except String Instant) (now : Instant) :
    SweepScheduler n :=
  let left := { c with ticks := c.ticks.erase t }
  match written with
  | .ok time => { left with heartbeat := some time }.checkStalled sweeps t.sweep now
  | .error name => (left.logged (.heartbeatWriteFailed name)).checkStalled sweeps t.sweep now

/- Neither `start` nor `stop` is called before a `stop` has returned. -/
def step (c : SweepScheduler n) : Event n → Option (SweepScheduler n)
  | .start jitterMs => if c.stop.isSome then none else some (c.starts sweeps jitterMs)
  | .stop deadlineMs => if c.stop.isSome then none else some (c.stops deadlineMs)
  | .stopReturns timedOut => c.stop.bind (fun awaited => c.stopReturns awaited timedOut)
  | .fires t => if t ∈ c.timers then some (c.fires sweeps t) else none
  | .runEnds t outcome now =>
    if t ∈ c.ticks ∧ t.phase = .running then some (c.runEnds t outcome now) else none
  | .resumes t => if t ∈ c.ticks ∧ t.phase = .settled then some (c.resumes t) else none
  | .heartbeatEnds t written now =>
    if t ∈ c.ticks ∧ t.phase = .beating then some (c.heartbeatEnds sweeps t written now) else none

end SweepScheduler
end FamilyPlatform.Worker
