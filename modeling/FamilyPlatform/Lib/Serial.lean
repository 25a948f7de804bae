import FamilyPlatform.Lib.Interleaving

/-! Calls one after the other, each alone with the store. What one call keeps, a whole
series of calls keeps. -/
namespace FamilyPlatform.Interleaving

variable {Store Statement Call Reply : Type}

theorem aloneEnds {apply : Statement → Store → Option Store} {ok : Reply → Prop} {l : Steps Store Statement Reply}
    (ends : Ends (fun _ => True) ok l) (s : Store) : ∀ reply ∈ (alone apply l s).1, ok reply := by
  induction l generalizing s with
  | returned reply =>
    rintro _ ⟨⟩
    exact ends
  | thrown =>
    rintro _ ⟨⟩
  | read next ih => exact ih s (ends s trivial) s
  | commit batch next ih =>
    simp only [alone]
    split
    · exact ih s (ends s trivial) _
    · rintro _ ⟨⟩

def Steps.over {Wide : Type} (view : Wide → Store) : Steps Store Statement Reply → Steps Wide Statement Reply
  | .returned reply => .returned reply
  | .thrown => .thrown
  | .read next => .read (fun x => (next (view x)).over view)
  | .commit batch next => .commit batch (fun x => (next (view x)).over view)

section
variable {Wide : Type} {view : Wide → Store} {apply : Statement → Store → Option Store}
  {wide : Statement → Wide → Option Wide} (same : ∀ w x, (wide w x).map view = apply w (view x))
include same

theorem applyAllOver (batch : List Statement) (x : Wide) :
    (applyAll wide batch x).map view = applyAll apply batch (view x) := by
  induction batch generalizing x with
  | nil => rfl
  | cons w rest ih =>
    have first := same w x
    simp only [applyAll,← first]
    cases wide w x with
    | none => rfl
    | some next => exact ih next

end

def Proposes (batches : List Statement → Prop) : Steps Store Statement Reply → Store → Prop
  | .returned _, _ | .thrown, _ => True
  | .read next, s => Proposes batches (next s) s
  | .commit batch next, _ => batches batch ∧ ∀ t, ∃ reply, next t = .returned reply

theorem aloneProposes (apply : Statement → Store → Option Store) {batches : List Statement → Prop}
    {l : Steps Store Statement Reply} {s : Store} (proposes : Proposes batches l s) :
    (alone apply l s).2 = s ∨ ∃ batch, batches batch ∧ applyAll apply batch s = some (alone apply l s).2 := by
  induction l generalizing s with
  | returned reply => exact .inl rfl
  | thrown => exact .inl rfl
  | read next ih => exact ih s proposes
  | commit batch next ih =>
    obtain ⟨is,ends⟩ := proposes
    simp only [alone]
    cases applied : applyAll apply batch s with
    | none => exact .inl rfl
    | some committed =>
      obtain ⟨reply,done⟩ := ends s
      refine .inr ⟨batch,is,applied.trans ?_⟩
      simp only
      rw [done]
      rfl

theorem holdsProposes {apply : Statement → Store → Option Store} {d : Discipline apply Reply} {i n : Nat}
    {batches : List Statement → Prop} {l : Steps Store Statement Reply} {s : Store} (lt : i < n) (good : d.good n s)
    (holds : Holds d i l s) (proposes : Proposes batches l s) :
    Proposes (fun batch => batches batch ∧ d.promise i batch s) l s := by
  induction l generalizing s with
  | returned reply => trivial
  | thrown => trivial
  | read next ih => exact ih s good (holds n s lt good (d.refl i s)) proposes
  | commit batch next ih => exact ⟨⟨proposes.1,(holds n s lt good (d.refl i s)).1⟩,proposes.2⟩

section
variable (p : System Store Statement Call Reply) (allowed : Call → Store → Prop)

def SerialWithin (n : Nat) (s : Store) : List Call → Prop
  | [] => True
  | call :: rest => allowed call s ∧ SerialWithin (n + 1) (alone p.apply (p.start call n) s).2 rest

instance [∀ call s, Decidable (allowed call s)] : (n : Nat) → (s : Store) → (calls : List Call) →
    Decidable (SerialWithin p allowed n s calls)
  | _, _, [] => .isTrue trivial
  | n, s, call :: rest =>
    have : Decidable (SerialWithin p allowed (n + 1) (alone p.apply (p.start call n) s).2 rest) :=
      instDecidableSerialWithin (n + 1) _ rest
    inferInstanceAs (Decidable (_ ∧ _))

variable {p allowed}

theorem serialKeeps {good : Nat → Store → Prop}
    (keeps : ∀ n s call, good n s → allowed call s → good (n + 1) (alone p.apply (p.start call n) s).2)
    {n : Nat} {s : Store} {calls : List Call} (base : good n s) (within : SerialWithin p allowed n s calls) :
    good (n + calls.length) (serial p n s calls).2 := by
  induction calls generalizing n s with
  | nil => exact base
  | cons call rest ih =>
    have last := ih (keeps n s call base within.1) within.2
    rw [List.length_cons,Nat.add_comm rest.length 1,← Nat.add_assoc]
    exact last

theorem serialAppend {n : Nat} {s : Store} {before after : List Call} :
    (serial p n s (before ++ after)).2 = (serial p (n + before.length) (serial p n s before).2 after).2 := by
  induction before generalizing n s with
  | nil => rfl
  | cons call rest ih =>
    rw [List.length_cons,Nat.add_comm rest.length 1,← Nat.add_assoc]
    exact ih

theorem serialWithinAppend {n : Nat} {s : Store} {before after : List Call} :
    SerialWithin p allowed n s (before ++ after) ↔ SerialWithin p allowed n s before ∧
      SerialWithin p allowed (n + before.length) (serial p n s before).2 after := by
  induction before generalizing n s with
  | nil => exact (and_iff_right trivial).symm
  | cons call rest ih =>
    rw [List.length_cons,Nat.add_comm rest.length 1,← Nat.add_assoc]
    exact (and_congr_right fun _ => ih).trans and_assoc.symm

/-- What was recorded at any time stays so at every later one, exactly where each call
leaves what it finds recorded. -/
theorem serialStays {Record : Type} {recorded : Record → Store → Prop}
    (exact_ : ∀ n call s, allowed call s ↔ ∀ x, recorded x s → recorded x (alone p.apply (p.start call n) s).2)
    (n : Nat) (s : Store) (calls : List Call) :
    (∀ before mid after, calls = before ++ (mid ++ after) → ∀ x, recorded x (serial p n s before).2 →
      recorded x (serial p n s (before ++ mid)).2) ↔ SerialWithin p allowed n s calls := by
  constructor
  · intro stays
    induction calls generalizing n s with
    | nil => trivial
    | cons call rest ih =>
      refine ⟨(exact_ n call s).mpr (fun x => stays [] [call] rest rfl x),ih _ _ (fun before mid after split => ?_)⟩
      exact stays (call :: before) mid after (congrArg (call :: ·) split)
  · rintro within before mid after rfl x found
    have later := (serialWithinAppend.mp (serialWithinAppend.mp within).2).1
    rw [serialAppend]
    exact serialKeeps (fun n s call found allowed => (exact_ n call s).mp allowed x found) found later

end
end FamilyPlatform.Interleaving
