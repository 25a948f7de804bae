import FamilyPlatform.Lib.Interleaving

/-! Transactions that lock a row, read it under the lock, write and commit, in any
interleaving. What they commit is what they would commit one after the other. -/
namespace FamilyPlatform.RowLock
open Interleaving (setCases)

/- `holds` tells of what was read whether there was a row to lock. -/
structure System (Store Request Key View Outcome : Type) where
  key : Request → Option Key
  read : Store → Request → View
  holds : View → Bool
  write : Store → Request → View → Outcome × Store

variable {Store Request Key View Outcome : Type}

inductive Phase (View : Type) where
  | waiting
  | holding (view : View)
  | over

structure Call (Request View : Type) where
  request : Request
  phase : Phase View

structure Entry (Store Request View Outcome : Type) where
  request : Request
  before : Store
  view : View
  outcome : Outcome
  after : Store

structure Config (Store Request View Outcome : Type) where
  store : Store
  calls : List (Call Request View)
  log : List (Entry Store Request View Outcome)

def begins (s : Store) : Config Store Request View Outcome := ⟨s,[],[]⟩

inductive Move (Request : Type) where
  | begin (request : Request)
  | lock (index : Nat)
  | commit (index : Nat)
  | abort (index : Nat)

section
variable [DecidableEq Key] (p : System Store Request Key View Outcome)

def Phase.isHolding : Phase View → Bool
  | .holding _ => true
  | _ => false

def free (calls : List (Call Request View)) (index : Nat) (key : Option Key) : Bool :=
  (List.range calls.length).all (fun j => j = index ||
    (calls[j]?).all (fun other => !(other.phase.isHolding && decide (p.key other.request = key))))

def finish (c : Config Store Request View Outcome) (index : Nat) (request : Request) (view : View) :
    Config Store Request View Outcome :=
  let (outcome, after) := p.write c.store request view
  ⟨after,c.calls.set index ⟨request,.over⟩,c.log ++ [⟨request,c.store,view,outcome,after⟩]⟩

/- A call that finds no row ends at once; an aborted one leaves nothing. -/
def move (c : Config Store Request View Outcome) : Move Request → Option (Config Store Request View Outcome)
  | .begin request => some { c with calls := c.calls ++ [⟨request,.waiting⟩] }
  | .lock index => do
    let call ← c.calls[index]?
    match call.phase with
    | .waiting =>
      if free p c.calls index (p.key call.request) then
        let view := p.read c.store call.request
        if p.holds view then some { c with calls := c.calls.set index ⟨call.request,.holding view⟩ }
        else some (finish p c index call.request view)
      else none
    | _ => none
  | .commit index => do
    let call ← c.calls[index]?
    match call.phase with
    | .holding view => some (finish p c index call.request view)
    | _ => none
  | .abort index => do
    let call ← c.calls[index]?
    match call.phase with
    | .over => none
    | _ => some { c with calls := c.calls.set index ⟨call.request,.over⟩ }

def run (c : Config Store Request View Outcome) : List (Move Request) → Option (Config Store Request View Outcome)
  | [] => some c
  | m :: rest => do
    let next ← move p c m
    run next rest

inductive Serial : Store → List (Entry Store Request View Outcome) → Store → Prop where
  | nil (s : Store) : Serial s [] s
  | cons {e : Entry Store Request View Outcome} {rest : List (Entry Store Request View Outcome)} {t : Store}
      (view : e.view = p.read e.before e.request) (made : p.write e.before e.request e.view = (e.outcome,e.after))
      (later : Serial e.after rest t) : Serial e.before (e :: rest) t

/- The writes of one call leave alone what another one holds. -/
def Framed : Prop := ∀ s q r, p.key q ≠ p.key r → p.holds (p.read s r) = true →
  p.read (p.write s q (p.read s q)).2 r = p.read s r

end

namespace Serial

variable {p : System Store Request Key View Outcome} {s t u : Store}
  {log : List (Entry Store Request View Outcome)}

theorem append {e : Entry Store Request View Outcome} (serial : Serial p s log e.before)
    (view : e.view = p.read e.before e.request) (made : p.write e.before e.request e.view = (e.outcome,e.after)) :
    Serial p s (log ++ [e]) e.after := by
  generalize same : e.before = t at serial
  induction serial with
  | nil s =>
    subst same
    exact .cons view made (.nil _)
  | cons view' made' _ ih => exact .cons view' made' (ih same)

theorem behind {before after : List (Entry Store Request View Outcome)} {e : Entry Store Request View Outcome}
    (serial : Serial p s (before ++ e :: after) t) : Serial p s before e.before ∧
      e.view = p.read e.before e.request ∧ p.write e.before e.request e.view = (e.outcome,e.after) ∧
      Serial p e.after after t := by
  generalize same : before ++ e :: after = log at serial
  induction serial generalizing before with
  | nil s => simp at same
  | @cons d rest t view made later ih =>
    cases before with
    | nil =>
      obtain ⟨rfl,rfl⟩ := List.cons.inj same
      exact ⟨.nil _,view,made,later⟩
    | cons d' before =>
      obtain ⟨rfl,rest_⟩ := List.cons.inj same
      obtain ⟨front,back⟩ := ih rest_
      exact ⟨.cons view made front,back⟩

theorem keeps (good : Store → Prop) (fine : Entry Store Request View Outcome → Prop)
    (allowed : Request → Prop)
    (step : ∀ e : Entry Store Request View Outcome, e.view = p.read e.before e.request →
      p.write e.before e.request e.view = (e.outcome,e.after) → allowed e.request → good e.before →
      good e.after ∧ fine e)
    (serial : Serial p s log t) (requests : ∀ e ∈ log, allowed e.request) (base : good s) :
    good t ∧ ∀ e ∈ log, good e.before ∧ fine e := by
  induction serial with
  | nil s => exact ⟨base,by simp⟩
  | @cons e rest t view made later ih =>
    obtain ⟨next,now⟩ := step e view made (requests e List.mem_cons_self) base
    obtain ⟨last,all⟩ := ih (fun d mem => requests d (List.mem_cons_of_mem e mem)) next
    refine ⟨last,fun d mem => ?_⟩
    rcases List.mem_cons.mp mem with rfl | there
    · exact ⟨base,now⟩
    · exact all d there

end Serial

section
variable [DecidableEq Key] {p : System Store Request Key View Outcome}

structure Sound (p : System Store Request Key View Outcome) (allowed : Request → Prop) (s : Store)
    (c : Config Store Request View Outcome) : Prop where
  serial : Serial p s c.log c.store
  locked : ∀ (i : Nat) (call : Call Request View) (view : View), c.calls[i]? = some call → call.phase = .holding view →
    view = p.read c.store call.request ∧ p.holds view = true
  exclusive : ∀ (i j : Nat) (left right : Call Request View), c.calls[i]? = some left →
    c.calls[j]? = some right → left.phase.isHolding = true → right.phase.isHolding = true →
    p.key left.request = p.key right.request → i = j
  calls : ∀ call ∈ c.calls, allowed call.request
  entries : ∀ e ∈ c.log, allowed e.request

theorem freeSource {calls : List (Call Request View)} {index : Nat} {key : Option Key}
    (is : free p calls index key = true) {j : Nat} {other : Call Request View} (found : calls[j]? = some other)
    (holding : other.phase.isHolding = true) (same : p.key other.request = key) : j = index := by
  have lt := (List.getElem?_eq_some_iff.mp found).1
  have := List.all_eq_true.mp is j (List.mem_range.mpr lt)
  simpa [found,holding,same] using this

variable {allowed : Request → Prop} {s : Store} {c : Config Store Request View Outcome}

omit [DecidableEq Key] in
theorem overExclusive (sound : Sound p allowed s c) (index : Nat) (request : Request) {i j : Nat}
    {left right : Call Request View} (thereI : (c.calls.set index ⟨request,.over⟩)[i]? = some left)
    (thereJ : (c.calls.set index ⟨request,.over⟩)[j]? = some right) (holdI : left.phase.isHolding = true)
    (holdJ : right.phase.isHolding = true) (same : p.key left.request = p.key right.request) : i = j := by
  rcases setCases thereI with ⟨-,rfl⟩ | ⟨-,oldI⟩
  · cases holdI
  rcases setCases thereJ with ⟨-,rfl⟩ | ⟨-,oldJ⟩
  · cases holdJ
  exact sound.exclusive i j left right oldI oldJ holdI holdJ same

omit [DecidableEq Key] in
theorem setAllowed (sound : Sound p allowed s c) {index : Nat} {call : Call Request View}
    (found : c.calls[index]? = some call) (phase : Phase View) :
    ∀ other ∈ c.calls.set index ⟨call.request,phase⟩, allowed other.request := by
  intro other mem
  rcases List.mem_or_eq_of_mem_set mem with old | rfl
  · exact sound.calls other old
  · exact sound.calls call (List.mem_of_getElem? found)

omit [DecidableEq Key] in
theorem finishSound (framed : Framed p) (sound : Sound p allowed s c) {index : Nat} {call : Call Request View}
    {view : View} (found : c.calls[index]? = some call) (read : view = p.read c.store call.request)
    (alone : ∀ j other, c.calls[j]? = some other → other.phase.isHolding = true →
      p.key other.request = p.key call.request → j = index) :
    Sound p allowed s (finish p c index call.request view) := by
  have may := sound.calls call (List.mem_of_getElem? found)
  simp only [finish]
  refine ⟨?_,?_,fun _ _ _ _ => overExclusive sound index call.request,setAllowed sound found .over,?_⟩
  · exact Serial.append (e := ⟨call.request,c.store,view,_,_⟩) sound.serial read rfl
  · intro i other view' there holding
    rcases setCases there with ⟨-,rfl⟩ | ⟨apart,old⟩
    · cases holding
    obtain ⟨is,held⟩ := sound.locked i other view' old holding
    refine ⟨?_,held⟩
    have different : p.key call.request ≠ p.key other.request := fun same =>
      apart (alone i other old (by rw [holding]; rfl) same.symm)
    rw [read,framed _ _ _ different (is ▸ held),is]
  · intro e mem
    rcases List.mem_append.mp mem with old | new
    · exact sound.entries e old
    · obtain rfl := List.mem_singleton.mp new
      exact may

omit [DecidableEq Key] in
theorem beginSound (sound : Sound p allowed s c) {request : Request} (may : allowed request) :
    Sound p allowed s { c with calls := c.calls ++ [⟨request,.waiting⟩] } := by
  have old : ∀ {i : Nat} {call : Call Request View}, (c.calls ++ [⟨request,.waiting⟩])[i]? = some call →
      call.phase.isHolding = true → c.calls[i]? = some call := by
    intro i call found holding
    rcases Nat.lt_or_ge i c.calls.length with lt | ge
    · rwa [List.getElem?_append_left lt] at found
    · rw [List.getElem?_append_right ge] at found
      obtain ⟨_,rfl⟩ : _ ∧ (⟨request,.waiting⟩ : Call Request View) = call := by
        simpa [List.getElem?_singleton] using found
      cases holding
  refine ⟨sound.serial,?_,?_,?_,sound.entries⟩
  · intro i call view found holding
    exact sound.locked i call view (old found (by rw [holding]; rfl)) holding
  · intro i j left right foundI foundJ holdI holdJ same
    exact sound.exclusive i j left right (old foundI holdI) (old foundJ holdJ) holdI holdJ same
  · intro call mem
    rcases List.mem_append.mp mem with known | new
    · exact sound.calls call known
    · obtain rfl := List.mem_singleton.mp new
      exact may

theorem takenSound (sound : Sound p allowed s c) {index : Nat} {call : Call Request View}
    (found : c.calls[index]? = some call) (nobody : free p c.calls index (p.key call.request) = true)
    (held : p.holds (p.read c.store call.request) = true) :
    Sound p allowed s { c with calls := c.calls.set index ⟨call.request,.holding (p.read c.store call.request)⟩ } := by
  refine ⟨sound.serial,?_,?_,setAllowed sound found _,sound.entries⟩
  · intro i other view there holding
    rcases setCases there with ⟨-,rfl⟩ | ⟨-,old⟩
    · cases holding
      exact ⟨rfl,held⟩
    · exact sound.locked i other view old holding
  · intro i j left right thereI thereJ holdI holdJ same
    rcases setCases thereI with ⟨rfl,rfl⟩ | ⟨-,oldI⟩ <;> rcases setCases thereJ with ⟨rfl,rfl⟩ | ⟨-,oldJ⟩
    · rfl
    · exact (freeSource nobody oldJ holdJ same.symm).symm
    · exact freeSource nobody oldI holdI same
    · exact sound.exclusive i j left right oldI oldJ holdI holdJ same

omit [DecidableEq Key] in
theorem overSound (sound : Sound p allowed s c) {index : Nat} {call : Call Request View}
    (found : c.calls[index]? = some call) :
    Sound p allowed s { c with calls := c.calls.set index ⟨call.request,.over⟩ } := by
  refine ⟨sound.serial,?_,fun _ _ _ _ => overExclusive sound index call.request,setAllowed sound found .over,
    sound.entries⟩
  intro i other view there holding
  rcases setCases there with ⟨-,rfl⟩ | ⟨-,old⟩
  · cases holding
  · exact sound.locked i other view old holding

theorem moveSound (framed : Framed p) (sound : Sound p allowed s c) {m : Move Request}
    (within : ∀ request, m = .begin request → allowed request) {next : Config Store Request View Outcome}
    (moved : move p c m = some next) : Sound p allowed s next := by
  cases m with
  | begin request =>
    cases moved
    exact beginSound sound (within request rfl)
  | lock index =>
    obtain ⟨call,found,moved⟩ := Option.bind_eq_some_iff.mp moved
    split at moved
    · split at moved
      · rename_i _ nobody
        simp only at moved
        split at moved
        · rename_i held
          cases moved
          exact takenSound sound found nobody held
        · cases moved
          exact finishSound framed sound found rfl (fun j other there holding same =>
            freeSource nobody there holding same)
      · cases moved
    · cases moved
  | commit index =>
    obtain ⟨call,found,moved⟩ := Option.bind_eq_some_iff.mp moved
    split at moved
    · rename_i view holding
      cases moved
      exact finishSound framed sound found (sound.locked index call view found holding).1
        (fun j other there held same => sound.exclusive j index other call there found held (by rw [holding]; rfl) same)
    · cases moved
  | abort index =>
    obtain ⟨call,found,moved⟩ := Option.bind_eq_some_iff.mp moved
    split at moved
    · cases moved
    · cases moved
      exact overSound sound found

/-- Every interleaving commits one call after the other. -/
theorem runSerial (framed : Framed p) {moves : List (Move Request)} {last : Config Store Request View Outcome}
    (within : ∀ request, .begin request ∈ moves → allowed request) (ran : run p (begins s) moves = some last) :
    Serial p s last.log last.store ∧ ∀ e ∈ last.log, allowed e.request := by
  have first : Sound p allowed s (begins s : Config Store Request View Outcome) :=
    ⟨.nil s,by simp [begins],by simp [begins],by simp [begins],by simp [begins]⟩
  have all : Sound p allowed s last := by
    generalize (begins s : Config Store Request View Outcome) = c at first ran
    induction moves generalizing c with
    | nil =>
      cases ran
      exact first
    | cons m rest ih =>
      obtain ⟨next,moved,ran⟩ := Option.bind_eq_some_iff.mp ran
      refine ih (fun request mem => within request (List.mem_cons_of_mem m mem)) next ?_ ran
      exact moveSound framed first (fun request is => within request (is ▸ List.mem_cons_self)) moved
  exact ⟨all.serial,all.entries⟩

end
end FamilyPlatform.RowLock
