import FamilyPlatform.Lib.Interleaving

/-! Transactions that read without a lock and lock a row only when they save it. What
one has read may be out of date by then; what it lists under the lock is not. -/
namespace FamilyPlatform.LateLock
open Interleaving (begunCases setCases)

inductive Reading (Store View : Type) where
  | ready (view : View)
  | read (next : Store → Reading Store View)

structure System (Store Request Key View Listing Outcome : Type) where
  start : Request → Reading Store View
  key : Request → View → Option Key
  list : Store → Request → View → Listing
  write : Store → Request → View → Listing → Outcome × Store

variable {Store Request Key View Listing Outcome : Type}

inductive Phase (Store View Listing : Type) where
  | reading (rest : Reading Store View)
  | holding (view : View) (listing : Listing)
  | over

structure Call (Store Request View Listing : Type) where
  request : Request
  phase : Phase Store View Listing

structure Entry (Store Request View Outcome : Type) where
  request : Request
  before : Store
  view : View
  outcome : Outcome
  after : Store

structure Config (Store Request View Listing Outcome : Type) where
  store : Store
  calls : List (Call Store Request View Listing)
  log : List (Entry Store Request View Outcome)

def begins (s : Store) : Config Store Request View Listing Outcome := ⟨s,[],[]⟩

inductive Move (Request : Type) where
  | begin (request : Request)
  | read (index : Nat)
  | save (index : Nat)
  | commit (index : Nat)
  | abort (index : Nat)
  deriving DecidableEq, Repr

section
variable [DecidableEq Key] (p : System Store Request Key View Listing Outcome)

def held (call : Call Store Request View Listing) : Option Key :=
  match call.phase with
  | .holding view _ => p.key call.request view
  | .reading _ | .over => none

def free (calls : List (Call Store Request View Listing)) (index : Nat) (k : Key) : Bool :=
  (List.range calls.length).all (fun j => j = index || (calls[j]?).all (fun other => decide (held p other ≠ some k)))

def finish (c : Config Store Request View Listing Outcome) (index : Nat) (request : Request) (view : View)
    (listing : Listing) : Config Store Request View Listing Outcome :=
  let (outcome, after) := p.write c.store request view listing
  ⟨after,c.calls.set index ⟨request,.over⟩,c.log ++ [⟨request,c.store,view,outcome,after⟩]⟩

/- A call that saves nothing ends at once; one whose row is locked waits; an aborted
one leaves nothing. -/
def move (c : Config Store Request View Listing Outcome) :
    Move Request → Option (Config Store Request View Listing Outcome)
  | .begin request => some { c with calls := c.calls ++ [⟨request,.reading (p.start request)⟩] }
  | .read index => do
    let call ← c.calls[index]?
    match call.phase with
    | .reading (.read next) =>
      some { c with calls := c.calls.set index ⟨call.request,.reading (next c.store)⟩ }
    | _ => none
  | .save index => do
    let call ← c.calls[index]?
    match call.phase with
    | .reading (.ready view) =>
      let listing := p.list c.store call.request view
      match p.key call.request view with
      | none => some (finish p c index call.request view listing)
      | some k =>
        if free p c.calls index k then
          some { c with calls := c.calls.set index ⟨call.request,.holding view listing⟩ }
        else none
    | _ => none
  | .commit index => do
    let call ← c.calls[index]?
    match call.phase with
    | .holding view listing => some (finish p c index call.request view listing)
    | _ => none
  | .abort index => do
    let call ← c.calls[index]?
    match call.phase with
    | .over => none
    | _ => some { c with calls := c.calls.set index ⟨call.request,.over⟩ }

def run (c : Config Store Request View Listing Outcome) :
    List (Move Request) → Option (Config Store Request View Listing Outcome)
  | [] => some c
  | m :: rest => do
    let next ← move p c m
    run next rest

def Reaches (c : Config Store Request View Listing Outcome) (moves : List (Move Request))
    (good : Config Store Request View Listing Outcome → Prop) : Prop := ∃ last, run p c moves = some last ∧ good last

instance (c : Config Store Request View Listing Outcome) (moves : List (Move Request))
    (good : Config Store Request View Listing Outcome → Prop) [DecidablePred good] : Decidable (Reaches p c moves good) :=
  match ran : run p c moves with
  | some last => decidable_of_iff (good last) (by simp [Reaches,ran])
  | none => .isFalse (by simp [Reaches,ran])

end

inductive Reached (seen : Store → Prop) (first : Reading Store View) : Reading Store View → Prop where
  | start : Reached seen first first
  | read {next : Store → Reading Store View} {x : Store} (before : Reached seen first (.read next))
      (at_ : seen x) : Reached seen first (next x)

namespace Reached

variable {seen seen' : Store → Prop} {first rest : Reading Store View} {view view' : View}

theorem mono (all : ∀ x, seen x → seen' x) (reached : Reached seen first rest) : Reached seen' first rest := by
  induction reached with
  | start => exact .start
  | read _ at_ ih => exact .read ih (all _ at_)

theorem readSource {next : Store → Reading Store View} (reached : Reached seen (.read next) rest) :
    rest = .read next ∨ ∃ x, seen x ∧ Reached seen (next x) rest := by
  induction reached with
  | start => exact .inl rfl
  | @read next' x before at_ ih =>
    rcases ih with same | ⟨y,there,later⟩
    · cases same
      exact .inr ⟨x,at_,.start⟩
    · exact .inr ⟨y,there,.read later at_⟩

theorem onward {next : Store → Reading Store View} (reached : Reached seen (.read next) (.ready view)) :
    ∃ x, seen x ∧ Reached seen (next x) (.ready view) := by
  rcases reached.readSource with same | there
  · cases same
  · exact there

theorem done (reached : Reached seen (.ready view) (.ready view')) : view' = view := by
  have all : ∀ rest, Reached seen (.ready view) rest → rest = .ready view := by
    intro rest reached
    induction reached with
    | start => rfl
    | read _ _ ih => cases ih
  exact Reading.ready.inj (all _ reached)

end Reached

section
variable (p : System Store Request Key View Listing Outcome)

def stores (s : Store) (log : List (Entry Store Request View Outcome)) : List Store := s :: log.map Entry.after

/- One commit after the other; each may be computed from reads of any earlier store. -/
inductive Late (s : Store) : List (Entry Store Request View Outcome) → Store → Prop where
  | begins : Late s [] s
  | commits {log : List (Entry Store Request View Outcome)} {e : Entry Store Request View Outcome}
      (earlier : Late s log e.before)
      (read : Reached (· ∈ stores s log) (p.start e.request) (.ready e.view))
      (made : p.write e.before e.request e.view (p.list e.before e.request e.view) = (e.outcome,e.after)) :
      Late s (log ++ [e]) e.after

/- The writes of one call leave alone what another one has listed. -/
def Framed : Prop := ∀ s q v r w k, p.key r w = some k → p.key q v ≠ some k →
  p.list (p.write s q v (p.list s q v)).2 r w = p.list s r w

end

namespace Late

variable {p : System Store Request Key View Listing Outcome} {s t : Store}
  {log : List (Entry Store Request View Outcome)}

theorem source (late : Late p s log t) : ∀ e ∈ log, Reached (fun _ => True) (p.start e.request) (.ready e.view) ∧
    p.write e.before e.request e.view (p.list e.before e.request e.view) = (e.outcome,e.after) := by
  induction late with
  | begins => simp
  | commits earlier read made ih =>
    intro d mem
    rcases List.mem_append.mp mem with old | new
    · exact ih d old
    · obtain rfl := List.mem_singleton.mp new
      exact ⟨read.mono (fun _ _ => trivial),made⟩

theorem later (kept : Store → Store → Prop) (refl : ∀ x, kept x x)
    (trans : ∀ x y z, kept x y → kept y z → kept x z) {allowed : Entry Store Request View Outcome → Prop}
    (step : ∀ e : Entry Store Request View Outcome, allowed e →
      Reached (fun x => kept x e.before) (p.start e.request) (.ready e.view) →
      p.write e.before e.request e.view (p.list e.before e.request e.view) = (e.outcome,e.after) →
      kept e.before e.after)
    (late : Late p s log t) (all : ∀ e ∈ log, allowed e) : ∀ x ∈ stores s log, kept x t := by
  induction late with
  | begins =>
    intro x mem
    obtain rfl : x = s := by simpa [stores] using mem
    exact refl x
  | @commits log e earlier read made ih =>
    have before := ih (fun d mem => all d (List.mem_append_left _ mem))
    have now := step e (all e (by simp)) (read.mono before) made
    intro x mem
    have where_ : x ∈ stores s log ∨ x = e.after := by
      simpa [stores,or_assoc] using mem
    rcases where_ with old | rfl
    · exact trans x _ _ (before x old) now
    · exact refl _

end Late

section
variable {p : System Store Request Key View Listing Outcome} {s : Store}
  {c : Config Store Request View Listing Outcome}

structure Sound (p : System Store Request Key View Listing Outcome) (s : Store)
    (c : Config Store Request View Listing Outcome) : Prop where
  late : Late p s c.log c.store
  reading : ∀ (i : Nat) (call : Call Store Request View Listing) (rest : Reading Store View),
    c.calls[i]? = some call → call.phase = .reading rest →
    Reached (· ∈ stores s c.log) (p.start call.request) rest
  holding : ∀ (i : Nat) (call : Call Store Request View Listing) (view : View) (listing : Listing),
    c.calls[i]? = some call → call.phase = .holding view listing →
    Reached (· ∈ stores s c.log) (p.start call.request) (.ready view) ∧
      listing = p.list c.store call.request view ∧ ∃ k, p.key call.request view = some k
  exclusive : ∀ (i j : Nat) (left right : Call Store Request View Listing) (k : Key), c.calls[i]? = some left →
    c.calls[j]? = some right → held p left = some k → held p right = some k → i = j

theorem heldSource {call : Call Store Request View Listing} {k : Key} (is : held p call = some k) :
    ∃ view listing, call.phase = .holding view listing ∧ p.key call.request view = some k := by
  unfold held at is
  split at is
  · exact ⟨_,_,by assumption,is⟩
  · cases is
  · cases is

theorem storesGrow {log : List (Entry Store Request View Outcome)} {e : Entry Store Request View Outcome} :
    ∀ x, x ∈ stores s log → x ∈ stores s (log ++ [e]) := by
  intro x mem
  simp only [stores,List.map_append,List.mem_cons,List.mem_append] at mem ⊢
  exact mem.elim .inl (fun old => .inr (.inl old))

theorem finishSound (framed : Framed p) (sound : Sound p s c) {index : Nat} {request : Request} {view : View}
    (read : Reached (· ∈ stores s c.log) (p.start request) (.ready view))
    (alone : ∀ j other k, j ≠ index → c.calls[j]? = some other → held p other = some k →
      p.key request view ≠ some k) :
    Sound p s (finish p c index request view (p.list c.store request view)) := by
  simp only [finish]
  refine ⟨?_,?_,?_,?_⟩
  · exact Late.commits (e := ⟨request,c.store,view,_,_⟩) sound.late read rfl
  · intro i call rest found phase
    rcases setCases found with ⟨-,rfl⟩ | ⟨-,old⟩
    · cases phase
    · exact (sound.reading i call rest old phase).mono storesGrow
  · intro i call view' listing found phase
    rcases setCases found with ⟨-,rfl⟩ | ⟨apart,old⟩
    · cases phase
    · obtain ⟨reached,listed,k,own⟩ := sound.holding i call view' listing old phase
      have other := alone i call k apart old (by simp only [held,phase,own])
      refine ⟨reached.mono storesGrow,?_,k,own⟩
      rw [framed _ _ _ _ _ k own other,listed]
  · intro i j left right k foundI foundJ holdI holdJ
    rcases setCases foundI with ⟨-,rfl⟩ | ⟨-,oldI⟩
    · cases holdI
    rcases setCases foundJ with ⟨-,rfl⟩ | ⟨-,oldJ⟩
    · cases holdJ
    exact sound.exclusive i j left right k oldI oldJ holdI holdJ

theorem setSound (sound : Sound p s c) {index : Nat} {request : Request} {phase : Phase Store View Listing}
    (reading : ∀ rest, phase = .reading rest → Reached (· ∈ stores s c.log) (p.start request) rest)
    (holding : ∀ view listing, phase = .holding view listing →
      Reached (· ∈ stores s c.log) (p.start request) (.ready view) ∧ listing = p.list c.store request view ∧
        ∃ k, p.key request view = some k ∧
          ∀ j other, c.calls[j]? = some other → held p other = some k → j = index) :
    Sound p s { c with calls := c.calls.set index ⟨request,phase⟩ } := by
  refine ⟨sound.late,?_,?_,?_⟩
  · intro i call rest found is
    rcases setCases found with ⟨-,rfl⟩ | ⟨-,old⟩
    · exact reading rest is
    · exact sound.reading i call rest old is
  · intro i call view listing found is
    rcases setCases found with ⟨-,rfl⟩ | ⟨-,old⟩
    · obtain ⟨reached,listed,k,own,-⟩ := holding view listing is
      exact ⟨reached,listed,k,own⟩
    · exact sound.holding i call view listing old is
  · have onlyOne : ∀ j (other : Call Store Request View Listing) k, held p ⟨request,phase⟩ = some k →
        c.calls[j]? = some other → held p other = some k → j = index := by
      intro j other k new found old
      obtain ⟨view,listing,is,own⟩ := heldSource new
      obtain ⟨-,-,k',own',alone⟩ := holding view listing is
      cases own.symm.trans own'
      exact alone j other found old
    intro i j left right k foundI foundJ holdI holdJ
    rcases setCases foundI with ⟨rfl,rfl⟩ | ⟨-,oldI⟩ <;> rcases setCases foundJ with ⟨rfl,rfl⟩ | ⟨-,oldJ⟩
    · rfl
    · exact (onlyOne j right k holdI oldJ holdJ).symm
    · exact onlyOne i left k holdJ oldI holdI
    · exact sound.exclusive i j left right k oldI oldJ holdI holdJ

theorem beginSound (sound : Sound p s c) (request : Request) :
    Sound p s { c with calls := c.calls ++ [⟨request,.reading (p.start request)⟩] } := by
  refine ⟨sound.late,?_,?_,?_⟩
  · intro i call rest found phase
    rcases begunCases found with old | ⟨-,rfl⟩
    · exact sound.reading i call rest old phase
    · cases phase
      exact .start
  · intro i call view listing found phase
    rcases begunCases found with old | ⟨-,rfl⟩
    · exact sound.holding i call view listing old phase
    · cases phase
  · intro i j left right k foundI foundJ holdI holdJ
    rcases begunCases foundI with oldI | ⟨-,rfl⟩
    · rcases begunCases foundJ with oldJ | ⟨-,rfl⟩
      · exact sound.exclusive i j left right k oldI oldJ holdI holdJ
      · cases holdJ
    · cases holdI

theorem lateStore {log : List (Entry Store Request View Outcome)} {t : Store} (late : Late p s log t) :
    t ∈ stores s log := by
  cases late <;> simp [stores]

theorem readSound (sound : Sound p s c) {index : Nat} {call : Call Store Request View Listing}
    {next : Store → Reading Store View} (found : c.calls[index]? = some call)
    (phase : call.phase = .reading (.read next)) :
    Sound p s { c with calls := c.calls.set index ⟨call.request,.reading (next c.store)⟩ } := by
  refine setSound sound ?_ (fun view listing is => by cases is)
  intro rest is
  cases is
  exact .read (sound.reading index call _ found phase) (lateStore sound.late)

variable [DecidableEq Key]

theorem freeSource {calls : List (Call Store Request View Listing)} {index : Nat} {k : Key}
    (is : free p calls index k = true) {j : Nat} {other : Call Store Request View Listing}
    (found : calls[j]? = some other) (holds : held p other = some k) : j = index := by
  have lt := (List.getElem?_eq_some_iff.mp found).1
  have := List.all_eq_true.mp is j (List.mem_range.mpr lt)
  simpa [found,holds] using this

theorem saveSound (framed : Framed p) (sound : Sound p s c) {index : Nat}
    {next : Config Store Request View Listing Outcome} (moved : move p c (.save index) = some next) :
    Sound p s next := by
  obtain ⟨call,found,moved⟩ := Option.bind_eq_some_iff.mp moved
  split at moved
  · rename_i view phase
    have read := sound.reading index call _ found phase
    simp only at moved
    split at moved
    · rename_i nothing
      cases moved
      exact finishSound framed sound read (by simp [nothing])
    · rename_i k own
      split at moved
      · rename_i nobody
        cases moved
        refine setSound sound (fun rest is => by cases is) ?_
        intro view' listing is
        cases is
        exact ⟨read,rfl,k,own,fun j other there holds => freeSource nobody there holds⟩
      · cases moved
  · cases moved

theorem moveSound (framed : Framed p) (sound : Sound p s c) {m : Move Request}
    {next : Config Store Request View Listing Outcome} (moved : move p c m = some next) : Sound p s next := by
  cases m with
  | begin request =>
    cases moved
    exact beginSound sound request
  | read index =>
    obtain ⟨call,found,moved⟩ := Option.bind_eq_some_iff.mp moved
    split at moved
    · rename_i next' phase
      cases moved
      exact readSound sound found phase
    · cases moved
  | save index => exact saveSound framed sound moved
  | commit index =>
    obtain ⟨call,found,moved⟩ := Option.bind_eq_some_iff.mp moved
    split at moved
    · rename_i view listing phase
      cases moved
      obtain ⟨read,rfl,k,own⟩ := sound.holding index call view listing found phase
      refine finishSound framed sound read ?_
      intro j other k' apart there holds same
      exact apart (sound.exclusive j index other call k' there found holds (by simp only [held,phase,same]))
    · cases moved
  | abort index =>
    obtain ⟨call,found,moved⟩ := Option.bind_eq_some_iff.mp moved
    split at moved
    · cases moved
    · cases moved
      exact setSound sound (fun rest is => by cases is) (fun view listing is => by cases is)

/-- Every interleaving commits one call after the other, each with a listing of the
store that it finds, though its reads may be of earlier ones. -/
theorem runLate (framed : Framed p) {moves : List (Move Request)} {last : Config Store Request View Listing Outcome}
    (ran : run p (begins s) moves = some last) : Late p s last.log last.store := by
  have first : Sound p s (begins s : Config Store Request View Listing Outcome) :=
    ⟨.begins,by simp [begins],by simp [begins],by simp [begins]⟩
  have all : Sound p s last := by
    generalize (begins s : Config Store Request View Listing Outcome) = c at first ran
    induction moves generalizing c with
    | nil =>
      cases ran
      exact first
    | cons m rest ih =>
      obtain ⟨next,moved,ran⟩ := Option.bind_eq_some_iff.mp ran
      exact ih next (moveSound framed first moved) ran
  exact all.late

end

section
variable [DecidableEq Key] (p : System Store Request Key View Listing Outcome)
  (allowed : Config Store Request View Listing Outcome → Move Request → Prop)

def Within (c : Config Store Request View Listing Outcome) : List (Move Request) → Prop
  | [] => True
  | m :: rest => allowed c m ∧ match move p c m with
    | some next => Within next rest
    | none => True

instance [∀ c m, Decidable (allowed c m)] : (c : Config Store Request View Listing Outcome) →
    (moves : List (Move Request)) → Decidable (Within p allowed c moves)
  | _, [] => .isTrue trivial
  | c, m :: rest =>
    have : Decidable (match move p c m with
        | some next => Within p allowed next rest
        | none => True) :=
      match move p c m with
      | some next => instDecidableWithin next rest
      | none => .isTrue trivial
    inferInstanceAs (Decidable (_ ∧ _))

def observed {Seen : Type} (seen : Config Store Request View Listing Outcome → Move Request → List Seen)
    (c : Config Store Request View Listing Outcome) : List (Move Request) → List Seen
  | [] => []
  | m :: rest => match move p c m with
    | some next => seen c m ++ observed seen next rest
    | none => []

variable {p allowed}

theorem runKeeps {Seen : Type} {seen : Config Store Request View Listing Outcome → Move Request → List Seen}
    {good : Config Store Request View Listing Outcome → List Seen → Prop} {admits : Move Request → Prop}
    (keeps : ∀ c m next past, admits m → allowed c m → good c past → move p c m = some next →
      good next (past ++ seen c m))
    {c last : Config Store Request View Listing Outcome} {moves : List (Move Request)} {past : List Seen}
    (base : good c past) (each : ∀ m ∈ moves, admits m) (within : Within p allowed c moves)
    (ran : run p c moves = some last) : good last (past ++ observed p seen c moves) := by
  induction moves generalizing c past with
  | nil =>
    cases ran
    simpa [observed] using base
  | cons m rest ih =>
    obtain ⟨next,moved,ran⟩ := Option.bind_eq_some_iff.mp ran
    obtain ⟨now,later⟩ := within
    rw [moved] at later
    have onward := ih (keeps c m next past (each m List.mem_cons_self) now base moved)
      (fun m mem => each m (List.mem_cons_of_mem _ mem)) later ran
    simpa only [observed,moved,List.append_assoc] using onward

end
end FamilyPlatform.LateLock
