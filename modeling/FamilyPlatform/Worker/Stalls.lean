import FamilyPlatform.Worker.Sweeping

/-! The alert of a sweep that has stopped succeeding: raised once from one success to the
next, at the first check that finds the last of them more than three cadences ago. -/
namespace FamilyPlatform.Worker
open Steps SweepScheduler

variable {n : Nat} {sweeps : Fin n → RegisteredSweep} {c next last : SweepScheduler n}

def observed (i : Fin n) (success : Option Instant) : Event n → Option Instant
  | .runEnds t (.ok _) now => if t.sweep = i then some now else success
  | _ => success

def told (i : Fin n) (alerts : Nat) : LogLine n → Nat
  | .succeeded j _ => if j = i then 0 else alerts
  | .sweepStalled j _ _ => if j = i then alerts + 1 else alerts
  | _ => alerts

def alerts (i : Fin n) (log : List (LogLine n)) : Nat := log.foldl (told i) 0

def Event.time : Event n → Option Instant
  | .runEnds _ _ now | .heartbeatEnds _ _ now => some now
  | _ => none

def Told (c : SweepScheduler n) : Prop := ∀ i, alerts i c.log = if (c.states i).stallReported then 1 else 0

structure Silent (c next : SweepScheduler n) : Prop where
  success : ∀ i, (next.states i).lastSuccessAt = (c.states i).lastSuccessAt
  reported : ∀ i, (next.states i).stallReported = (c.states i).stallReported
  alerts : ∀ i, alerts i next.log = alerts i c.log

theorem Silent.refl : Silent c c := ⟨fun _ => rfl,fun _ => rfl,fun _ => rfl⟩

theorem Silent.trans (first : Silent c next) (second : Silent next last) : Silent c last :=
  ⟨fun i => (second.success i).trans (first.success i),fun i => (second.reported i).trans (first.reported i),
    fun i => (second.alerts i).trans (first.alerts i)⟩

theorem Silent.told (silent : Silent c next) (told : Told c) : Told next := by
  intro i
  rw [silent.alerts,silent.reported]
  exact told i

end FamilyPlatform.Worker
