import Mathlib.Logic.Basic

/-! Calls over one shared store. A call alternates reads, each of the store as it is
then committed, with batches of statements that commit together or not at all; the
steps of different calls come in any order. No store and no statement is named. -/
namespace FamilyPlatform.Interleaving

variable {Store Statement Call Reply : Type}

/- A call with a step left never has to take it: one that is not advanced again has
failed, and what it read is forgotten. -/
inductive Steps (Store Statement Reply : Type) where
  | returned (reply : Reply)
  | thrown
  | read (next : Store → Steps Store Statement Reply)
  | commit (batch : List Statement) (next : Store → Steps Store Statement Reply)

structure System (Store Statement Call Reply : Type) where
  apply : Statement → Store → Option Store
  start : Call → Nat → Steps Store Statement Reply

def applyAll (apply : Statement → Store → Option Store) : List Statement → Store → Option Store
  | [], s => some s
  | w :: rest, s => do
    let next ← apply w s
    applyAll apply rest next

theorem applyAllCons {apply : Statement → Store → Option Store} {w : Statement} {rest : List Statement} {s t : Store}
    (applied : applyAll apply (w :: rest) s = some t) :
    ∃ next, apply w s = some next ∧ applyAll apply rest next = some t := Option.bind_eq_some_iff.mp applied

theorem applyAllAppend (apply : Statement → Store → Option Store) (xs ys : List Statement) (s : Store) :
    applyAll apply (xs ++ ys) s = (applyAll apply xs s).bind (applyAll apply ys) := by
  induction xs generalizing s with
  | nil => rfl
  | cons x rest ih =>
    simp only [List.cons_append,applyAll,bind]
    cases apply x s with
    | none => rfl
    | some next => exact ih next

@[simp] theorem applyAllOne (apply : Statement → Store → Option Store) (w : Statement) (s : Store) :
    applyAll apply [w] s = apply w s := by
  cases applied : apply w s <;> simp [applyAll,applied]

theorem applyAllKeeps {apply : Statement → Store → Option Store} {kept : Store → Prop}
    {batch : List Statement} (each : ∀ w ∈ batch, ∀ s s', kept s → apply w s = some s' → kept s')
    {s last : Store} (base : kept s) (applied : applyAll apply batch s = some last) : kept last := by
  induction batch generalizing s with
  | nil => cases Option.some.inj applied; exact base
  | cons w rest ih =>
    simp only [applyAll,bind,Option.bind_eq_some_iff] at applied
    obtain ⟨next,head,tail⟩ := applied
    exact ih (fun v mem => each v (List.mem_cons_of_mem w mem))
      (each w List.mem_cons_self s next base head) tail

def advance (apply : Statement → Store → Option Store) :
    Steps Store Statement Reply → Store → Option (Steps Store Statement Reply × Store)
  | .returned _, _ => none
  | .thrown, _ => none
  | .read next, s => some (next s, s)
  | .commit batch next, s => match applyAll apply batch s with
    | some committed => some (next s, committed)
    | none => some (.thrown, s)

structure Config (Store Statement Reply : Type) where
  store : Store
  calls : List (Steps Store Statement Reply)

inductive Move (Call : Type) where
  | begin (call : Call)
  | advance (index : Nat)
  deriving DecidableEq, Repr

def move (p : System Store Statement Call Reply) (c : Config Store Statement Reply) :
    Move Call → Option (Config Store Statement Reply)
  | .begin call => some ⟨c.store, c.calls ++ [p.start call c.calls.length]⟩
  | .advance index => do
    let l ← c.calls[index]?
    let next ← Interleaving.advance p.apply l c.store
    some ⟨next.2, c.calls.set index next.1⟩

def run (p : System Store Statement Call Reply) (c : Config Store Statement Reply) :
    List (Move Call) → Option (Config Store Statement Reply)
  | [] => some c
  | m :: rest => do
    let next ← move p c m
    run p next rest

def begins (s : Store) : Config Store Statement Reply := ⟨s, []⟩

def Steps.reply : Steps Store Statement Reply → Option Reply
  | .returned reply => some reply
  | .thrown | .read _ | .commit _ _ => none

def Config.replies (c : Config Store Statement Reply) : List (Option Reply) := c.calls.map Steps.reply

def alone (apply : Statement → Store → Option Store) :
    Steps Store Statement Reply → Store → Option Reply × Store
  | .returned reply, s => (some reply, s)
  | .thrown, s => (none, s)
  | .read next, s => alone apply (next s) s
  | .commit batch next, s => match applyAll apply batch s with
    | some committed => alone apply (next s) committed
    | none => (none, s)

def serial (p : System Store Statement Call Reply) (n : Nat) (s : Store) :
    List Call → List (Option Reply) × Store
  | [] => ([], s)
  | call :: rest =>
    let (reply, next) := alone p.apply (p.start call n) s
    let (replies, last) := serial p (n + 1) next rest
    (reply :: replies, last)

def Reaches (p : System Store Statement Call Reply) (c : Config Store Statement Reply)
    (moves : List (Move Call)) (good : Config Store Statement Reply → Prop) : Prop :=
  ∃ last, run p c moves = some last ∧ good last

instance (p : System Store Statement Call Reply) (c : Config Store Statement Reply)
    (moves : List (Move Call)) (good : Config Store Statement Reply → Prop) [DecidablePred good] :
    Decidable (Reaches p c moves good) :=
  match ran : run p c moves with
  | some last => decidable_of_iff (good last) (by simp [Reaches,ran])
  | none => .isFalse (by simp [Reaches,ran])

section
variable (p : System Store Statement Call Reply) (allowed : List Statement → Store → Prop)

def Commits : Steps Store Statement Reply → Store → Prop
  | .commit batch _, s => allowed batch s
  | .returned _, _ | .thrown, _ | .read _, _ => True

def Moves (c : Config Store Statement Reply) : Move Call → Prop
  | .begin _ => True
  | .advance index => match c.calls[index]? with
    | some l => Commits allowed l c.store
    | none => True

def Within (c : Config Store Statement Reply) : List (Move Call) → Prop
  | [] => True
  | m :: rest => Moves allowed c m ∧ match move p c m with
    | some next => Within next rest
    | none => True

variable [∀ batch s, Decidable (allowed batch s)]

instance (l : Steps Store Statement Reply) (s : Store) : Decidable (Commits allowed l s) :=
  match l with
  | .commit batch _ => inferInstanceAs (Decidable (allowed batch s))
  | .returned _ | .thrown | .read _ => .isTrue trivial

instance (c : Config Store Statement Reply) (m : Move Call) : Decidable (Moves allowed c m) :=
  match m with
  | .begin _ => .isTrue trivial
  | .advance index =>
    match found : c.calls[index]? with
    | some l => decidable_of_iff (Commits allowed l c.store) (by simp [Moves,found])
    | none => .isTrue (by simp [Moves,found])

instance decideWithin (c : Config Store Statement Reply) :
    (moves : List (Move Call)) → Decidable (Within p allowed c moves)
  | [] => .isTrue trivial
  | m :: rest =>
    have : Decidable (match move p c m with
        | some next => Within p allowed next rest
        | none => True) :=
      match move p c m with
      | some next => decideWithin next rest
      | none => .isTrue trivial
    inferInstanceAs (Decidable (_ ∧ _))

end

theorem advanceCases {apply : Statement → Store → Option Store}
    {l l' : Steps Store Statement Reply} {s s' : Store} (stepped : advance apply l s = some (l', s')) :
    (∃ next, l = .read next ∧ l' = next s ∧ s' = s) ∨
    (∃ batch next, l = .commit batch next ∧ applyAll apply batch s = some s' ∧ l' = next s) ∨
    (∃ batch next, l = .commit batch next ∧ l' = .thrown ∧ s' = s) := by
  cases l with
  | returned reply => simp [advance] at stepped
  | thrown => simp [advance] at stepped
  | read next =>
    simp only [advance,Option.some.injEq,Prod.mk.injEq] at stepped
    exact .inl ⟨next,rfl,stepped.1.symm,stepped.2.symm⟩
  | commit batch next =>
    simp only [advance] at stepped
    split at stepped
    · rename_i committed applied
      simp only [Option.some.injEq,Prod.mk.injEq] at stepped
      obtain ⟨rfl,rfl⟩ := stepped
      exact .inr (.inl ⟨batch,next,rfl,applied,rfl⟩)
    · simp only [Option.some.injEq,Prod.mk.injEq] at stepped
      exact .inr (.inr ⟨batch,next,rfl,stepped.1.symm,stepped.2.symm⟩)

theorem moveCases {p : System Store Statement Call Reply} {c next : Config Store Statement Reply}
    {m : Move Call} (moved : move p c m = some next) :
    (∃ call, m = .begin call ∧ next = ⟨c.store, c.calls ++ [p.start call c.calls.length]⟩) ∨
    (∃ index l l' s, m = .advance index ∧ c.calls[index]? = some l ∧
      advance p.apply l c.store = some (l', s) ∧ next = ⟨s, c.calls.set index l'⟩) := by
  cases m with
  | begin call => exact .inl ⟨call,rfl,(Option.some.inj moved).symm⟩
  | advance index =>
    simp only [move,bind,Option.bind_eq_some_iff] at moved
    obtain ⟨l,found,⟨l',s⟩,stepped,last⟩ := moved
    exact .inr ⟨index,l,l',s,rfl,found,stepped,(Option.some.inj last).symm⟩

theorem begunCases {α : Type} {calls : List α} {new l : α} {i : Nat}
    (at_ : (calls ++ [new])[i]? = some l) : calls[i]? = some l ∨ (i = calls.length ∧ l = new) := by
  rcases Nat.lt_trichotomy i calls.length with lt | rfl | gt
  · rw [List.getElem?_append_left lt] at at_
    exact .inl at_
  · simp only [List.getElem?_concat_length,Option.some.injEq] at at_
    exact .inr ⟨rfl,at_.symm⟩
  · have beyond : (calls ++ [new])[i]? = none := List.getElem?_eq_none (by simp; omega)
    rw [beyond] at at_
    cases at_

theorem setCases {α : Type} {calls : List α} {index i : Nat} {call other : α}
    (found : (calls.set index call)[i]? = some other) :
    (i = index ∧ other = call) ∨ (i ≠ index ∧ calls[i]? = some other) := by
  by_cases same : i = index
  · subst same
    rw [List.getElem?_set_self'] at found
    obtain ⟨_,-,rfl⟩ := Option.map_eq_some_iff.mp found
    exact .inl ⟨rfl,rfl⟩
  · rw [List.getElem?_set_ne (Ne.symm same)] at found
    exact .inr ⟨same,found⟩

theorem runInduction {p : System Store Statement Call Reply} {allowed : List Statement → Store → Prop}
    {good : Config Store Statement Reply → Prop}
    (step : ∀ c m next, good c → move p c m = some next → Moves allowed c m → good next)
    {c last : Config Store Statement Reply} {moves : List (Move Call)} (base : good c)
    (within : Within p allowed c moves) (ran : run p c moves = some last) : good last := by
  induction moves generalizing c with
  | nil => cases Option.some.inj ran; exact base
  | cons m rest ih =>
    simp only [run,bind,Option.bind_eq_some_iff] at ran
    obtain ⟨next,moved,ran⟩ := ran
    have later := within.2
    rw [moved] at later
    exact ih (step c m next base moved within.1) later ran

theorem runAppend {p : System Store Statement Call Reply} {c : Config Store Statement Reply}
    {before after : List (Move Call)} :
    run p c (before ++ after) = (run p c before).bind (fun mid => run p mid after) := by
  induction before generalizing c with
  | nil => rfl
  | cons m rest ih =>
    simp only [List.cons_append,run,bind]
    cases move p c m with
    | none => rfl
    | some next => exact ih

theorem withinAppend {p : System Store Statement Call Reply} {allowed : List Statement → Store → Prop}
    {c mid : Config Store Statement Reply} {before after : List (Move Call)}
    (within : Within p allowed c (before ++ after)) (ran : run p c before = some mid) :
    Within p allowed mid after := by
  induction before generalizing c with
  | nil => cases Option.some.inj ran; exact within
  | cons m rest ih =>
    simp only [run,bind,Option.bind_eq_some_iff] at ran
    obtain ⟨next,moved,ran⟩ := ran
    have later := within.2
    rw [moved] at later
    exact ih later ran

def Ends (kept : Store → Prop) (ok : Reply → Prop) : Steps Store Statement Reply → Prop
  | .returned reply => ok reply
  | .thrown => True
  | .read next => ∀ s, kept s → Ends kept ok (next s)
  | .commit _ next => ∀ s, kept s → Ends kept ok (next s)

theorem advanceEnds {apply : Statement → Store → Option Store} {kept : Store → Prop} {ok : Reply → Prop}
    {l l' : Steps Store Statement Reply} {s s' : Store} (holds : kept s) (ends : Ends kept ok l)
    (stepped : advance apply l s = some (l', s')) : Ends kept ok l' := by
  obtain ⟨next,rfl,rfl,rfl⟩ | ⟨batch,next,rfl,applied,rfl⟩ | ⟨batch,next,rfl,rfl,rfl⟩ :=
    advanceCases stepped
  · exact ends _ holds
  · exact ends s holds
  · trivial

theorem runEnds {p : System Store Statement Call Reply} {allowed : List Statement → Store → Prop}
    {kept : Store → Prop} {ok : Reply → Prop} (start : ∀ call n, Ends kept ok (p.start call n))
    (keeps : ∀ batch s u, allowed batch s → kept s → applyAll p.apply batch s = some u → kept u)
    {c last : Config Store Statement Reply} {moves : List (Move Call)} (base : kept c.store)
    (within : Within p allowed c moves) (ran : run p c moves = some last) :
    kept last.store ∧ ∀ i l, c.calls.length ≤ i → last.calls[i]? = some l → Ends kept ok l := by
  have step : ∀ (d : Config Store Statement Reply) (m : Move Call) (next : Config Store Statement Reply),
      (kept d.store ∧ c.calls.length ≤ d.calls.length ∧
        ∀ i l, c.calls.length ≤ i → d.calls[i]? = some l → Ends kept ok l) →
      move p d m = some next → Moves allowed d m →
      kept next.store ∧ c.calls.length ≤ next.calls.length ∧
        ∀ i l, c.calls.length ≤ i → next.calls[i]? = some l → Ends kept ok l := by
    intro d m next ⟨holds,later,ends⟩ moved allows
    obtain ⟨call,rfl,rfl⟩ | ⟨index,l,l',s,rfl,found,stepped,rfl⟩ := moveCases moved
    · refine ⟨holds,by simp; omega,?_⟩
      intro i k ge at_
      rcases begunCases at_ with old | ⟨-,rfl⟩
      · exact ends i k ge old
      · exact start call _
    · refine ⟨?_,by simpa using later,?_⟩
      · obtain ⟨after,rfl,rfl,rfl⟩ | ⟨batch,after,rfl,applied,rfl⟩ | ⟨batch,after,rfl,rfl,rfl⟩ :=
          advanceCases stepped
        · exact holds
        · simp only [Moves,found,Commits] at allows
          exact keeps batch _ _ allows holds applied
        · exact holds
      · intro i k ge at_
        by_cases same : index = i
        · subst i
          rw [List.getElem?_set_self (List.getElem?_eq_some_iff.mp found).1] at at_
          cases Option.some.inj at_
          exact advanceEnds holds (ends index l ge found) stepped
        · rw [List.getElem?_set_ne same] at at_
          exact ends i k ge at_
  have first : kept c.store ∧ c.calls.length ≤ c.calls.length ∧
      ∀ i l, c.calls.length ≤ i → c.calls[i]? = some l → Ends kept ok l := by
    refine ⟨base,Nat.le_refl _,?_⟩
    intro i l ge at_
    exact absurd (List.getElem?_eq_some_iff.mp at_).1 (Nat.not_lt.mpr ge)
  have final := runInduction step first within ran
  exact ⟨final.1,final.2.2⟩

/- The rely-guarantee rule. `good n` holds of every committed store after `n` calls
have begun; `rely i` is what the other calls may do to the store between two steps
of call `i`; `promise i` is what call `i` owes of the batch, in the store that its
commit finds, and `answer i` what it owes of its reply. -/
structure Discipline (apply : Statement → Store → Option Store) (Reply : Type) where
  good : Nat → Store → Prop
  rely : Nat → Store → Store → Prop
  promise : Nat → List Statement → Store → Prop
  answer : Nat → Reply → Store → Prop
  issue : ∀ {n s}, good n s → good (n + 1) s
  refl : ∀ i s, rely i s s
  trans : ∀ {i a b c}, rely i a b → rely i b c → rely i a c
  stays : ∀ {i reply s t}, answer i reply s → rely i s t → answer i reply t
  keeps : ∀ {n i batch s u}, i < n → good n s → promise i batch s → applyAll apply batch s = some u →
    good n u ∧ ∀ j, j ≠ i → rely j s u

section
variable {apply : Statement → Store → Option Store} (d : Discipline apply Reply)

def Holds (i : Nat) : Steps Store Statement Reply → Store → Prop
  | .returned reply, s => d.answer i reply s
  | .thrown, _ => True
  | .read next, s => ∀ n t, i < n → d.good n t → d.rely i s t → Holds i (next t) t
  | .commit batch next, s => ∀ n t, i < n → d.good n t → d.rely i s t →
      d.promise i batch t ∧ ∀ u, applyAll apply batch t = some u → Holds i (next t) u

variable {d}

theorem holdsRead {i : Nat} {next : Store → Steps Store Statement Reply} {s : Store}
    (after : ∀ n t, i < n → d.good n t → d.rely i s t → Holds d i (next t) t) :
    Holds d i (.read next) s := after

theorem holdsRely {i : Nat} {l : Steps Store Statement Reply} {s t : Store} (holds : Holds d i l s)
    (changed : d.rely i s t) : Holds d i l t := by
  cases l with
  | returned reply => exact d.stays holds changed
  | thrown => trivial
  | read next => exact fun n u lt good later => holds n u lt good (d.trans changed later)
  | commit batch next => exact fun n u lt good later => holds n u lt good (d.trans changed later)

variable (d) in
def Sound (c : Config Store Statement Reply) : Prop :=
  d.good c.calls.length c.store ∧ ∀ i l, c.calls[i]? = some l → Holds d i l c.store

theorem advanceSound {i n : Nat} {l l' : Steps Store Statement Reply} {s s' : Store} (lt : i < n)
    (good : d.good n s) (holds : Holds d i l s) (stepped : advance apply l s = some (l', s')) :
    d.good n s' ∧ (∀ j, j ≠ i → d.rely j s s') ∧ Holds d i l' s' := by
  obtain ⟨next,rfl,rfl,rfl⟩ | ⟨batch,next,rfl,applied,rfl⟩ | ⟨batch,next,rfl,rfl,rfl⟩ :=
    advanceCases stepped
  · exact ⟨good,fun j _ => d.refl j _,holds n _ lt good (d.refl i _)⟩
  · obtain ⟨promised,after⟩ := holds n s lt good (d.refl i s)
    obtain ⟨good',others⟩ := d.keeps lt good promised applied
    exact ⟨good',others,after s' applied⟩
  · exact ⟨good,fun j _ => d.refl j _,trivial⟩

variable {p : System Store Statement Call Reply} {d : Discipline p.apply Reply}

theorem moveSound (start : ∀ n s call, d.good n s → Holds d n (p.start call n) s)
    {c next : Config Store Statement Reply} {m : Move Call} (sound : Sound d c)
    (moved : move p c m = some next) : Sound d next := by
  obtain ⟨call,rfl,rfl⟩ | ⟨index,l,l',s,rfl,found,stepped,rfl⟩ := moveCases moved
  · refine ⟨by simpa using d.issue sound.1,?_⟩
    intro i k at_
    rcases begunCases at_ with old | ⟨rfl,rfl⟩
    · exact sound.2 i k old
    · exact start _ _ call sound.1
  · have lt : index < c.calls.length := (List.getElem?_eq_some_iff.mp found).1
    have after := advanceSound lt sound.1 (sound.2 index l found) stepped
    refine ⟨by simpa using after.1,?_⟩
    intro i k at_
    by_cases same : index = i
    · subst i
      rw [List.getElem?_set_self lt] at at_
      cases Option.some.inj at_
      exact after.2.2
    · rw [List.getElem?_set_ne same] at at_
      exact holdsRely (sound.2 i k at_) (after.2.1 i (Ne.symm same))

theorem runSound (start : ∀ n s call, d.good n s → Holds d n (p.start call n) s) {s : Store}
    {last : Config Store Statement Reply} {moves : List (Move Call)} (base : d.good 0 s)
    (ran : run p (begins s) moves = some last) : Sound d last := by
  have first : Sound d (begins s : Config Store Statement Reply) := ⟨base,by simp [begins]⟩
  generalize (begins s : Config Store Statement Reply) = c at first ran
  induction moves generalizing c with
  | nil =>
    cases ran
    exact first
  | cons m rest ih =>
    obtain ⟨next,moved,ran⟩ := Option.bind_eq_some_iff.mp ran
    exact ih next (moveSound start first moved) ran

/-- What every promised and allowed commit keeps holds in every store a run reaches. -/
theorem runInvariant (start : ∀ n s call, d.good n s → Holds d n (p.start call n) s)
    {allowed : List Statement → Store → Prop} {kept : Store → Prop}
    (keeps : ∀ {n i batch s u}, i < n → d.good n s → d.promise i batch s → allowed batch s → kept s →
      applyAll p.apply batch s = some u → kept u)
    {s : Store} {last : Config Store Statement Reply} {moves : List (Move Call)} (base : d.good 0 s)
    (initial : kept s) (within : Within p allowed (begins s) moves)
    (ran : run p (begins s) moves = some last) : Sound d last ∧ kept last.store := by
  have first : Sound d (begins s : Config Store Statement Reply) ∧ kept s :=
    ⟨⟨base,by simp [begins]⟩,initial⟩
  have step : ∀ (c : Config Store Statement Reply) (m : Move Call) (next : Config Store Statement Reply),
      Sound d c ∧ kept c.store → move p c m = some next → Moves allowed c m →
      Sound d next ∧ kept next.store := by
    intro c m next ⟨sound,holds⟩ moved ok
    refine ⟨moveSound start sound moved,?_⟩
    obtain ⟨call,rfl,rfl⟩ | ⟨index,l,l',s,rfl,found,stepped,rfl⟩ := moveCases moved
    · exact holds
    · have lt : index < c.calls.length := (List.getElem?_eq_some_iff.mp found).1
      obtain ⟨after,rfl,rfl,rfl⟩ | ⟨batch,after,rfl,applied,rfl⟩ | ⟨batch,after,rfl,rfl,rfl⟩ :=
        advanceCases stepped
      · exact holds
      · have promised := (sound.2 index _ found _ _ lt sound.1 (d.refl index _)).1
        simp only [Moves,found,Commits] at ok
        exact keeps lt sound.1 promised ok holds applied
      · exact holds
  exact runInduction step first within ran

end
end FamilyPlatform.Interleaving
