import Mathlib.Logic.Basic

/-! Runs of a machine that does not allow every event in every state. -/
namespace FamilyPlatform.Steps

variable {State Other Event Event' : Type} {step : State → Event → Option State}

def run (step : State → Event → Option State) (s : State) (events : List Event) : Option State := events.foldlM step s

theorem runCons {s last : State} {event : Event} {rest : List Event} :
    run step s (event :: rest) = some last ↔ ∃ next, step s event = some next ∧ run step next rest = some last := by
  simp only [run,List.foldlM_cons,bind,Option.bind_eq_some_iff]

theorem runKeeps {good : State → Prop} {allowed : Event → Prop}
    (keeps : ∀ s event next, allowed event → good s → step s event = some next → good next) {s last : State}
    {events : List Event} (base : good s) (all : ∀ event ∈ events, allowed event) (ran : run step s events = some last) :
    good last := by
  induction events generalizing s with
  | nil =>
    cases ran
    exact base
  | cons event rest ih =>
    obtain ⟨next,stepped,ran⟩ := runCons.mp ran
    exact ih (keeps s event next (all event List.mem_cons_self) base stepped)
      (fun e mem => all e (List.mem_cons_of_mem event mem)) ran

theorem runFollows {step' : Other → Event' → Option Other} {translate : Event → Event'} {alike : State → Other → Prop}
    (follows : ∀ s o event next, alike s o → step s event = some next →
      ∃ next', step' o (translate event) = some next' ∧ alike next next') {s last : State} {o : Other}
    {events : List Event} (base : alike s o) (ran : run step s events = some last) :
    ∃ last', run step' o (events.map translate) = some last' ∧ alike last last' := by
  induction events generalizing s o with
  | nil =>
    cases ran
    exact ⟨o,rfl,base⟩
  | cons event rest ih =>
    obtain ⟨next,stepped,ran⟩ := runCons.mp ran
    obtain ⟨next',stepped',alike'⟩ := follows s o event next base stepped
    obtain ⟨last',ran',same⟩ := ih alike' ran
    exact ⟨last',runCons.mpr ⟨next',stepped',ran'⟩,same⟩

end FamilyPlatform.Steps
