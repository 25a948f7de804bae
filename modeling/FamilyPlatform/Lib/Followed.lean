import Mathlib.Data.List.Induction
import FamilyPlatform.Lib.Interleaving

/-! Runs with the calls that they began. What a call commits is known from the call and
its number alone, as long as the store keeps to a predicate. -/
namespace FamilyPlatform.Interleaving

variable {Store Statement Call Reply : Type}

def Steps.lift {Wider : Type} (f : Statement → Wider) : Steps Store Statement Reply → Steps Store Wider Reply
  | .returned reply => .returned reply
  | .thrown => .thrown
  | .read next => .read (fun s => (next s).lift f)
  | .commit batch next => .commit (batch.map f) (fun s => (next s).lift f)

def begun : List (Move Call) → List Call
  | [] => []
  | .begin call :: rest => call :: begun rest
  | .advance _ :: rest => begun rest

theorem begunAppend (before after : List (Move Call)) : begun (before ++ after) = begun before ++ begun after := by
  induction before with
  | nil => rfl
  | cons m rest ih => cases m <;> simp [begun,ih]

theorem withinBefore {p : System Store Statement Call Reply} {allowed : List Statement → Store → Prop}
    {c : Config Store Statement Reply} {before after : List (Move Call)}
    (within : Within p allowed c (before ++ after)) : Within p allowed c before := by
  induction before generalizing c with
  | nil => trivial
  | cons m rest ih =>
    refine ⟨within.1,?_⟩
    have later := within.2
    split at later
    · exact ih later
    · trivial

def Writes (kept : Store → Prop) (batches : List Statement → Prop) : Steps Store Statement Reply → Prop
  | .returned _ | .thrown => True
  | .read next => ∀ s, kept s → Writes kept batches (next s)
  | .commit batch next => batches batch ∧ ∀ s, kept s → Writes kept batches (next s)

theorem writesRead {kept : Store → Prop} {batches : List Statement → Prop}
    {next : Store → Steps Store Statement Reply} (after : ∀ s, kept s → Writes kept batches (next s)) :
    Writes kept batches (.read next) := after

theorem advanceWrites {apply : Statement → Store → Option Store} {kept : Store → Prop}
    {batches : List Statement → Prop} {l l' : Steps Store Statement Reply} {s s' : Store} (holds : kept s)
    (writes : Writes kept batches l) (stepped : advance apply l s = some (l', s')) : Writes kept batches l' := by
  obtain ⟨next,rfl,rfl,rfl⟩ | ⟨batch,next,rfl,applied,rfl⟩ | ⟨batch,next,rfl,rfl,rfl⟩ := advanceCases stepped
  · exact writes _ holds
  · exact writes.2 s holds
  · trivial

theorem writesLift {Wider : Type} {f : Statement → Wider} {kept : Store → Prop} {batches : List Wider → Prop}
    {l : Steps Store Statement Reply} (writes : Writes kept (fun batch => batches (batch.map f)) l) :
    Writes kept batches (l.lift f) := by
  induction l with
  | returned reply => trivial
  | thrown => trivial
  | read next ih => exact fun s holds => ih s (writes s holds)
  | commit batch next ih => exact ⟨writes.1,fun s holds => ih s (writes.2 s holds)⟩

section
variable (kept : Store → Prop) (batches : Nat → Call → List Statement → Prop)

structure Follows (calls : List Call) (c : Config Store Statement Reply) : Prop where
  numbered : c.calls.length = calls.length
  writes : ∀ i (call : Call) l, calls[i]? = some call → c.calls[i]? = some l → Writes kept (batches i call) l

variable {kept batches} {p : System Store Statement Call Reply} {allowed : List Statement → Store → Prop}

/-- What every allowed commit keeps holds in every store that a run reaches, along with
what was known of the calls, of which only those that are asked for begin. -/
theorem runFollowedBy (ok : Call → Prop) (inv : List Call → Store → Prop)
    (start : ∀ i call, Writes kept (batches i call) (p.start call i)) (holds : ∀ {calls s}, inv calls s → kept s)
    (begins : ∀ {calls s} call, ok call → inv calls s → inv (calls ++ [call]) s)
    (keeps : ∀ {calls s t i call batch}, calls[i]? = some call → inv calls s → batches i call batch →
      allowed batch s → applyAll p.apply batch s = some t → inv calls t)
    {calls : List Call} {c last : Config Store Statement Reply} {moves : List (Move Call)}
    (follows : Follows kept batches calls c) (base : inv calls c.store) (asked : ∀ call ∈ begun moves, ok call)
    (within : Within p allowed c moves) (ran : run p c moves = some last) :
    Follows kept batches (calls ++ begun moves) last ∧ inv (calls ++ begun moves) last.store := by
  induction moves generalizing calls c with
  | nil =>
    cases Option.some.inj ran
    simpa [begun] using And.intro follows base
  | cons m rest ih =>
    obtain ⟨next,moved,ran⟩ := Option.bind_eq_some_iff.mp ran
    have later := within.2
    rw [moved] at later
    obtain ⟨call,rfl,rfl⟩ | ⟨index,l,l',s,rfl,found,stepped,rfl⟩ := moveCases moved
    · have begunOne : Follows kept batches (calls ++ [call]) ⟨c.store,c.calls ++ [p.start call c.calls.length]⟩ := by
        refine ⟨by simp [follows.numbered],fun i other l named at_ => ?_⟩
        rcases begunCases named with old | ⟨rfl,rfl⟩
        · have lt : i < c.calls.length := follows.numbered ▸ (List.getElem?_eq_some_iff.mp old).1
          rw [List.getElem?_append_left lt] at at_
          exact follows.writes i other l old at_
        · rw [← follows.numbered,List.getElem?_concat_length] at at_
          cases Option.some.inj at_
          exact follows.numbered ▸ start _ _
      have first := begins call (asked call List.mem_cons_self) base
      simpa [begun] using ih begunOne first (fun other mem => asked other (List.mem_cons_of_mem call mem)) later ran
    · have lt : index < calls.length := follows.numbered ▸ (List.getElem?_eq_some_iff.mp found).1
      have named : calls[index]? = some calls[index] := List.getElem?_eq_getElem lt
      have writes := follows.writes index _ l named found
      have advanced : Follows kept batches calls ⟨s,c.calls.set index l'⟩ := by
        refine ⟨by simpa using follows.numbered,fun i other k at_ there => ?_⟩
        rcases setCases there with ⟨rfl,rfl⟩ | ⟨-,old⟩
        · rw [named] at at_
          cases Option.some.inj at_
          exact advanceWrites (holds base) writes stepped
        · exact follows.writes i other k at_ old
      refine ih advanced ?_ asked later ran
      obtain ⟨after,rfl,rfl,rfl⟩ | ⟨batch,after,rfl,applied,rfl⟩ | ⟨batch,after,rfl,rfl,rfl⟩ := advanceCases stepped
      · exact base
      · have ok := within.1
        simp only [Moves,found,Commits] at ok
        exact keeps named base writes.1 ok applied
      · exact base

theorem runFollowed (inv : List Call → Store → Prop)
    (start : ∀ i call, Writes kept (batches i call) (p.start call i)) (holds : ∀ {calls s}, inv calls s → kept s)
    (begins : ∀ {calls s} call, inv calls s → inv (calls ++ [call]) s)
    (keeps : ∀ {calls s t i call batch}, calls[i]? = some call → inv calls s → batches i call batch →
      allowed batch s → applyAll p.apply batch s = some t → inv calls t)
    {calls : List Call} {c last : Config Store Statement Reply} {moves : List (Move Call)}
    (follows : Follows kept batches calls c) (base : inv calls c.store) (within : Within p allowed c moves)
    (ran : run p c moves = some last) :
    Follows kept batches (calls ++ begun moves) last ∧ inv (calls ++ begun moves) last.store :=
  runFollowedBy (fun _ => True) inv start holds (fun call _ => begins call) keeps follows base (fun _ _ => trivial) within ran

theorem withinLasting {lasts : Store → Store → Prop} (refl : ∀ s, lasts s s)
    (trans : ∀ {s t u}, lasts s t → lasts t u → lasts s u) (keeps : ∀ {w s t}, p.apply w s = some t → lasts s t)
    {c last : Config Store Statement Reply} {moves : List (Move Call)} (ran : run p c moves = some last) :
    lasts c.store last.store ∧
      Within p (fun batch s => ∀ t, applyAll p.apply batch s = some t → lasts t last.store) c moves := by
  induction moves generalizing c with
  | nil =>
    cases Option.some.inj ran
    exact ⟨refl _,trivial⟩
  | cons m rest ih =>
    obtain ⟨next,moved,ran⟩ := Option.bind_eq_some_iff.mp ran
    obtain ⟨later,within⟩ := ih ran
    have batchKeeps {batch : List Statement} {s t : Store} (applied : applyAll p.apply batch s = some t) : lasts s t :=
      applyAllKeeps (fun _ _ _ _ before wrote => trans before (keeps wrote)) (refl s) applied
    obtain ⟨call,rfl,rfl⟩ | ⟨index,l,l',s,rfl,found,stepped,rfl⟩ := moveCases moved
    · exact ⟨later,trivial,by rw [moved]; exact within⟩
    · refine ⟨?_,?_,by rw [moved]; exact within⟩
      · obtain ⟨after,rfl,rfl,rfl⟩ | ⟨batch,after,rfl,applied,rfl⟩ | ⟨batch,after,rfl,rfl,rfl⟩ := advanceCases stepped
        · exact later
        · exact trans (batchKeeps applied) later
        · exact later
      · simp only [Moves,found]
        cases l with
        | commit batch after =>
          intro t committed
          simp only [advance,committed,Option.some.injEq,Prod.mk.injEq] at stepped
          exact stepped.2 ▸ later
        | returned reply => trivial
        | thrown => trivial
        | read after => trivial

theorem withinAny (c : Config Store Statement Reply) (moves : List (Move Call)) : Within p (fun _ _ => True) c moves := by
  induction moves generalizing c with
  | nil => trivial
  | cons m rest ih =>
    refine ⟨?_,?_⟩
    · unfold Moves
      split
      · trivial
      · split
        · unfold Commits
          split <;> trivial
        · trivial
    · split
      · exact ih _
      · trivial

end
end FamilyPlatform.Interleaving
