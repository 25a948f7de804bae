import FamilyPlatform.Lib.Gates

/-! The log that a run leaves. Statements add entries to it and nothing takes them away; each
entry is marked with the number of the call that it came from, so that what the log holds of
a call can be told from the call, the gates that it has passed and its reply. -/
namespace FamilyPlatform.Interleaving

variable {Store Statement Call Reply Entry : Type}

section
variable (adds : Statement → List Entry) (tells : List Entry → Gates Store → Option Reply → Prop)

/- What a script has added, and the gates that it has still to pass, wherever it is left. -/
def Leaves : List Entry → Gates Store → Steps Store Statement Reply → Prop
  | done, gates, .returned reply => tells done gates (some reply)
  | done, gates, .thrown => tells done gates none
  | done, gates, .read next => tells done gates none ∧ ∀ s, Leaves done gates (next s) ∨
      ∃ isOpen rest, gates = .gate isOpen rest ∧ isOpen s ∧ Leaves done (rest s) (next s)
  | done, gates, .commit batch next => tells done gates none ∧ ∀ s, Leaves (done ++ batch.flatMap adds) gates (next s)

variable {adds tells} {done : List Entry} {gates : Gates Store}

theorem leavesTells {l : Steps Store Statement Reply} (leaves : Leaves adds tells done gates l) :
    tells done gates l.reply := by
  cases l with
  | returned reply => exact leaves
  | thrown => exact leaves
  | read next => exact leaves.1
  | commit batch next => exact leaves.1

theorem leavesRead {next : Store → Steps Store Statement Reply} (under : tells done gates none)
    (after : ∀ s, Leaves adds tells done gates (next s)) : Leaves adds tells done gates (.read next) :=
  ⟨under,fun s => .inl (after s)⟩

theorem leavesGate {isOpen : Store → Prop} {rest : Store → Gates Store} {next : Store → Steps Store Statement Reply}
    (under : tells done (.gate isOpen rest) none)
    (shut : ∀ s, ¬ isOpen s → Leaves adds tells done (.gate isOpen rest) (next s))
    (opens : ∀ s, isOpen s → Leaves adds tells done (rest s) (next s)) :
    Leaves adds tells done (.gate isOpen rest) (.read next) := by
  refine ⟨under,fun s => ?_⟩
  by_cases passes : isOpen s
  · exact .inr ⟨isOpen,rest,rfl,passes,opens s passes⟩
  · exact .inl (shut s passes)

theorem leavesNothing {l : Steps Store Statement Reply} {ok : Reply → Prop} (ends : Ends (fun _ => True) ok l)
    (writes : Writes (fun _ => True) (fun batch => batch.flatMap adds = []) l) (under : tells done gates none)
    (ended : ∀ reply, ok reply → tells done gates (some reply)) : Leaves adds tells done gates l := by
  induction l with
  | returned reply => exact ended reply ends
  | thrown => exact under
  | read next ih => exact ⟨under,fun s => .inl (ih s (ends s trivial) (writes s trivial))⟩
  | commit batch next ih =>
    refine ⟨under,fun s => ?_⟩
    rw [writes.1,List.append_nil]
    exact ih s (ends s trivial) (writes.2 s trivial)

end

theorem othersSpared {own : Nat → Entry → Bool} (apart : ∀ i j e, own i e → own j e → i = j) {i j : Nat}
    {entries : List Entry} (all : ∀ e ∈ entries, own i e) (other : j ≠ i) :
    entries.filter (own j) = [] := by
  refine List.filter_eq_nil_iff.mpr (fun e mem is => other ?_)
  exact apart j i e is (all e mem)

section
variable (p : System Store Statement Call Reply)

def Left (s : Store) (moves : List (Move Call)) (i : Nat) (gates left : Gates Store) : Prop :=
  ∃ before call after mid, moves = before ++ .begin call :: after ∧ run p (begins s) before = some mid ∧
    mid.calls.length = i ∧ Passes p ⟨mid.store,mid.calls ++ [p.start call i]⟩ after gates left

variable {p} {s : Store} {moves : List (Move Call)} {c next : Config Store Statement Reply} {i : Nat}
  {gates left : Gates Store}

theorem leftThen (before : Left p s moves i gates left) (ran : run p (begins s) moves = some c) {m : Move Call}
    {rest : Gates Store} (passes : Passes p c [m] left rest) : Left p s (moves ++ [m]) i gates rest := by
  obtain ⟨first,call,after,mid,rfl,reached,rfl,so⟩ := before
  refine ⟨first,call,after ++ [m],mid,by simp,reached,rfl,passesThen so ?_ passes⟩
  rw [runAppend,reached] at ran
  exact ran

theorem leftBegins {call : Call} (ran : run p (begins s) moves = some c) :
    Left p s (moves ++ [.begin call]) c.calls.length gates gates := ⟨moves,call,[],c,rfl,ran,rfl,.here⟩

end

structure Accounts (p : System Store Statement Call Reply) (log : Store → List Entry) (adds : Statement → List Entry)
    (own : Nat → Entry → Bool) (gates : Call → Gates Store)
    (tells : Nat → Call → List Entry → Gates Store → Option Reply → Prop) (s : Store) (moves : List (Move Call))
    (c : Config Store Statement Reply) : Prop where
  count : c.calls.length = (begun moves).length
  each : ∀ (i : Nat) call l, (begun moves)[i]? = some call → c.calls[i]? = some l →
    ∃ left, Left p s moves i (gates call) left ∧ Leaves adds (tells i call) ((log c.store).filter (own i)) left l ∧
      Writes (fun _ => True) (fun batch => ∀ e ∈ batch.flatMap adds, own i e) l
  later : ∀ i, (begun moves).length ≤ i → (log c.store).filter (own i) = []
  source : ∃ entries, log c.store = log s ++ entries ∧ ∀ e ∈ entries, ∃ i < (begun moves).length, own i e

section
variable {p : System Store Statement Call Reply} {log : Store → List Entry} {adds : Statement → List Entry}
  (appends : ∀ {w s t}, p.apply w s = some t → log t = log s ++ adds w) {own : Nat → Entry → Bool}
  {gates : Call → Gates Store} {tells : Nat → Call → List Entry → Gates Store → Option Reply → Prop}
include appends

theorem batchAppends {batch : List Statement} {s t : Store} (applied : applyAll p.apply batch s = some t) :
    log t = log s ++ batch.flatMap adds := by
  induction batch generalizing s with
  | nil =>
    cases Option.some.inj applied
    simp
  | cons w rest ih =>
    obtain ⟨next,wrote,later⟩ := applyAllCons applied
    rw [ih later,appends wrote,List.flatMap_cons,List.append_assoc]

variable (apart : ∀ i j e, own i e → own j e → i = j)
  (start : ∀ i call, Leaves adds (tells i call) [] (gates call) (p.start call i) ∧
    Writes (fun _ => True) (fun batch => ∀ e ∈ batch.flatMap adds, own i e) (p.start call i))
  {s : Store} {moves : List (Move Call)} {c : Config Store Statement Reply}

omit appends in
include start in
theorem accountsBegin {call : Call} (accounts : Accounts p log adds own gates tells s moves c)
    (ran : run p (begins s) moves = some c) : Accounts p log adds own gates tells s (moves ++ [.begin call])
      ⟨c.store,c.calls ++ [p.start call c.calls.length]⟩ := by
  obtain ⟨entries,split,source⟩ := accounts.source
  have listed : begun (moves ++ [Move.begin call]) = begun moves ++ [call] := begunAppend moves [.begin call]
  refine ⟨by simp [accounts.count,listed],fun i other l named at_ => ?_,fun i beyond => accounts.later i ?_,entries,split,
    fun e mem => ?_⟩
  · rw [listed] at named
    rcases begunCases named with old | ⟨rfl,rfl⟩
    · have lt : i < c.calls.length := accounts.count ▸ (List.getElem?_eq_some_iff.mp old).1
      rw [List.getElem?_append_left lt] at at_
      obtain ⟨left,since,rest⟩ := accounts.each i other l old at_
      exact ⟨left,leftThen since ran .here,rest⟩
    · rw [← accounts.count,List.getElem?_concat_length] at at_
      cases Option.some.inj at_
      rw [accounts.later _ (Nat.le_refl _),← accounts.count]
      exact ⟨gates other,leftBegins ran,start _ other⟩
  · rw [listed,List.length_append] at beyond
    omega
  · obtain ⟨i,lt,is⟩ := source e mem
    exact ⟨i,by rw [listed,List.length_append]; omega,is⟩

omit appends in
include apart in
theorem accountsOnward {index : Nat} {call : Call} {l' : Steps Store Statement Reply} {t : Store} {added : List Entry}
    {left : Gates Store} (accounts : Accounts p log adds own gates tells s moves c) (ran : run p (begins s) moves = some c)
    (named : (begun moves)[index]? = some call) (grown : log t = log c.store ++ added) (mine : ∀ e ∈ added, own index e)
    (since : Left p s (moves ++ [.advance index]) index (gates call) left)
    (leaves : Leaves adds (tells index call) ((log c.store).filter (own index) ++ added) left l')
    (writes : Writes (fun _ => True) (fun batch => ∀ e ∈ batch.flatMap adds, own index e) l') :
    Accounts p log adds own gates tells s (moves ++ [.advance index]) ⟨t,c.calls.set index l'⟩ := by
  have listed : begun (moves ++ [Move.advance index]) = begun moves := by simp [begunAppend,begun]
  have lt : index < (begun moves).length := (List.getElem?_eq_some_iff.mp named).1
  obtain ⟨entries,split,source⟩ := accounts.source
  refine ⟨by simpa [listed] using accounts.count,fun i other k at_ there => ?_,fun i beyond => ?_,
    entries ++ added,by rw [grown,split,List.append_assoc],fun e mem => ?_⟩
  · rw [listed] at at_
    rw [grown,List.filter_append]
    rcases setCases there with ⟨rfl,rfl⟩ | ⟨another,old⟩
    · cases Option.some.inj (named.symm.trans at_)
      rw [List.filter_eq_self.mpr mine]
      exact ⟨left,since,leaves,writes⟩
    · rw [othersSpared apart mine another,List.append_nil]
      obtain ⟨left,before,rest⟩ := accounts.each i other k at_ old
      exact ⟨left,leftThen before ran .here,rest⟩
  · rw [listed] at beyond
    rw [grown,List.filter_append,accounts.later i beyond,othersSpared apart mine (by omega),List.append_nil]
  · rw [listed]
    rcases List.mem_append.mp mem with old | new
    · exact source e old
    · exact ⟨index,lt,mine e new⟩

include apart start

theorem accountsMove {m : Move Call} {next : Config Store Statement Reply}
    (accounts : Accounts p log adds own gates tells s moves c) (ran : run p (begins s) moves = some c)
    (moved : move p c m = some next) : Accounts p log adds own gates tells s (moves ++ [m]) next := by
  obtain ⟨call,rfl,rfl⟩ | ⟨index,l,l',t,rfl,found,stepped,rfl⟩ := moveCases moved
  · exact accountsBegin start accounts ran
  · have lt : index < (begun moves).length := accounts.count ▸ (List.getElem?_eq_some_iff.mp found).1
    have named : (begun moves)[index]? = some (begun moves)[index] := List.getElem?_eq_getElem lt
    obtain ⟨left,since,leaves,writes⟩ := accounts.each index _ l named found
    have one : run p c [.advance index] = some ⟨t,c.calls.set index l'⟩ := by simp [run,moved]
    have same : log c.store = log c.store ++ [] := (List.append_nil _).symm
    have none_ : ∀ e ∈ ([] : List Entry), own index e := fun e mem => absurd mem List.not_mem_nil
    obtain ⟨after,rfl,rfl,rfl⟩ | ⟨batch,after,rfl,applied,rfl⟩ | ⟨batch,after,rfl,rfl,rfl⟩ := advanceCases stepped
    · rcases leaves.2 c.store with stays | ⟨isOpen,rest,rfl,opens,passes⟩
      · exact accountsOnward apart accounts ran named same none_ (leftThen since ran .here)
          (by rwa [List.append_nil]) (writes _ trivial)
      · exact accountsOnward apart accounts ran named same none_
          (leftThen since ran (.through [] [.advance index] rfl opens .here)) (by rwa [List.append_nil]) (writes _ trivial)
    · exact accountsOnward apart accounts ran named (batchAppends appends applied) writes.1 (leftThen since ran .here)
        (leaves.2 c.store) (writes.2 _ trivial)
    · exact accountsOnward apart accounts ran named same none_ (leftThen since ran .here)
        (by rw [List.append_nil]; exact leaves.1) trivial

/-- What the log holds of a call is told by the call, the gates that it has passed and its
reply, and it holds nothing that came from no call. -/
theorem accountsRun (fresh : ∀ i, (log s).filter (own i) = []) (ran : run p (begins s) moves = some c) :
    (∀ (i : Nat) call, (begun moves)[i]? = some call → ∃ reply left, c.replies[i]? = some reply ∧
      Left p s moves i (gates call) left ∧ tells i call ((log c.store).filter (own i)) left reply) ∧
    ∃ entries, log c.store = log s ++ entries ∧ ∀ e ∈ entries, ∃ i < (begun moves).length, own i e := by
  have accounts : Accounts p log adds own gates tells s moves c := by
    induction moves using List.reverseRecOn generalizing c with
    | nil =>
      cases Option.some.inj ran
      exact ⟨rfl,fun i call l named => by simp [begun] at named,fun i _ => fresh i,[],by simp [begins],
        fun e none => absurd none List.not_mem_nil⟩
    | append_singleton moves m ih =>
      rw [runAppend] at ran
      obtain ⟨mid,before,ran⟩ := Option.bind_eq_some_iff.mp ran
      obtain ⟨next,moved,ran⟩ := Option.bind_eq_some_iff.mp ran
      cases Option.some.inj ran
      exact accountsMove appends apart start (ih before) before moved
  refine ⟨fun i call named => ?_,accounts.source⟩
  have lt : i < c.calls.length := accounts.count ▸ (List.getElem?_eq_some_iff.mp named).1
  obtain ⟨left,since,leaves,-⟩ := accounts.each i call _ named (List.getElem?_eq_getElem lt)
  exact ⟨c.calls[i].reply,left,by simp [Config.replies,lt],since,leavesTells leaves⟩

end
end FamilyPlatform.Interleaving
