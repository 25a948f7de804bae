import Mathlib.Logic.Basic

/-! A machine that handles one request after the other. What each request keeps, a
whole run keeps. -/
namespace FamilyPlatform.Machine

variable {State Request Outcome : Type} (step : State → Request → Outcome × State)

def run (s : State) : List Request → List Outcome × State
  | [] => ([], s)
  | request :: rest =>
    let (outcome, next) := step s request
    let (outcomes, last) := run next rest
    (outcome :: outcomes, last)

theorem runKeepsWhere (allowed : Request → Prop) (good : State → Prop) (ok : Outcome → Prop)
    (keeps : ∀ s request, allowed request → good s → ok (step s request).1 ∧ good (step s request).2) {s : State}
    (base : good s) {requests : List Request} (all : ∀ request ∈ requests, allowed request) :
    (∀ outcome ∈ (run step s requests).1, ok outcome) ∧ good (run step s requests).2 := by
  induction requests generalizing s with
  | nil => exact ⟨by simp [run],base⟩
  | cons request rest ih =>
    obtain ⟨now,next⟩ := keeps s request (all request List.mem_cons_self) base
    obtain ⟨later,last⟩ := ih next (fun r mem => all r (List.mem_cons_of_mem request mem))
    exact ⟨by simpa [run] using ⟨now,later⟩,last⟩

theorem runKeeps (good : State → Prop) (ok : Outcome → Prop)
    (keeps : ∀ s request, good s → ok (step s request).1 ∧ good (step s request).2) {s : State}
    (base : good s) (requests : List Request) :
    (∀ outcome ∈ (run step s requests).1, ok outcome) ∧ good (run step s requests).2 :=
  runKeepsWhere step (fun _ => True) good ok (fun s request _ => keeps s request) base (fun _ _ => trivial)

end FamilyPlatform.Machine
