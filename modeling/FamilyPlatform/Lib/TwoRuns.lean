import Mathlib.Logic.Basic

/-! One computation run from two states. Both runs end alike, in values that are related or
in the same error; an error that is excluded elsewhere may end either of them. -/
namespace FamilyPlatform.TwoRuns

variable {ε α β γ δ : Type}

inductive Alike (expected : ε → Prop) (post : α → β → Prop) : Except ε α → Except ε β → Prop where
  | ok {a b} (holds : post a b) : Alike expected post (.ok a) (.ok b)
  | error (e : ε) : Alike expected post (.error e) (.error e)
  | left {e y} (excluded : ¬ expected e) : Alike expected post (.error e) y
  | right {x e} (excluded : ¬ expected e) : Alike expected post x (.error e)

namespace Alike

variable {expected : ε → Prop} {p : α → β → Prop} {q : γ → δ → Prop} {x : Except ε α} {y : Except ε β}

theorem bind {f : α → Except ε γ} {g : β → Except ε δ} (first : Alike expected p x y)
    (after : ∀ a b, p a b → Alike expected q (f a) (g b)) : Alike expected q (x >>= f) (y >>= g) := by
  cases first with
  | ok holds => exact after _ _ holds
  | error e => exact .error e
  | left excluded => exact .left excluded
  | right excluded => exact .right excluded

theorem same {p : α → α → Prop} (x : Except ε α) (holds : ∀ a, x = .ok a → p a a) : Alike expected p x x := by
  cases x with
  | error e => exact .error e
  | ok a => exact .ok (holds a rfl)

theorem foldlM {ι : Type} {f : α → ι → Except ε α} {g : β → ι → Except ε β}
    (step : ∀ a b x, p a b → Alike expected p (f a x) (g b x)) (xs : List ι) {a : α} {b : β} (start : p a b) :
    Alike expected p (xs.foldlM f a) (xs.foldlM g b) := by
  induction xs generalizing a b with
  | nil => exact .ok start
  | cons x rest ih =>
    rw [List.foldlM_cons,List.foldlM_cons]
    exact (step a b x start).bind (fun _ _ next => ih next)

theorem settled {result : Type} {f : α → result} {g : β → result} (alike : Alike expected p x y)
    (same : ∀ a b, p a b → f a = g b) (left : ∀ e, x = .error e → expected e) (right : ∀ e, y = .error e → expected e) :
    x.map f = y.map g := by
  cases alike with
  | ok holds => exact congrArg Except.ok (same _ _ holds)
  | error e => rfl
  | left excluded => exact absurd (left _ rfl) excluded
  | right excluded => exact absurd (right _ rfl) excluded

end Alike
end FamilyPlatform.TwoRuns
