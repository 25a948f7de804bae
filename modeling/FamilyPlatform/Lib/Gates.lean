import FamilyPlatform.Lib.Followed
import FamilyPlatform.Lib.Serial

/-! Calls that pass gates. A gate is a condition on a store; a call has passed it once it
has read such a store, and what it read decides which gates come next. Until all its gates
are passed, a call commits nothing but what is free and answers with nothing but a refusal. -/
namespace FamilyPlatform.Interleaving

variable {Store Statement Call Reply : Type}

def Steps.bind {Next : Type} :
    Steps Store Statement Reply → (Reply → Steps Store Statement Next) → Steps Store Statement Next
  | .returned reply, f => f reply
  | .thrown, _ => .thrown
  | .read next, f => .read (fun s => (next s).bind f)
  | .commit batch next, f => .commit batch (fun s => (next s).bind f)

theorem aloneBind {Next : Type} (apply : Statement → Store → Option Store) (l : Steps Store Statement Reply)
    (f : Reply → Steps Store Statement Next) (s : Store) :
    alone apply (l.bind f) s = match alone apply l s with
      | (some reply, t) => alone apply (f reply) t
      | (none, t) => (none, t) := by
  induction l generalizing s with
  | returned reply => rfl
  | thrown => rfl
  | read next ih => exact ih s s
  | commit batch next ih =>
    simp only [Steps.bind,alone]
    cases applyAll apply batch s with
    | none => rfl
    | some t => exact ih s t

section
variable {kept : Store → Prop} {batches : List Statement → Prop}

theorem writesMono {others : List Statement → Prop} {l : Steps Store Statement Reply} (writes : Writes kept batches l)
    (weaker : ∀ batch, batches batch → others batch) : Writes kept others l := by
  induction l with
  | returned reply => trivial
  | thrown => trivial
  | read next ih => exact fun s holds => ih s (writes s holds)
  | commit batch next ih => exact ⟨weaker batch writes.1,fun s holds => ih s (writes.2 s holds)⟩

theorem writesAny {l : Steps Store Statement Reply} (all : ∀ batch, batches batch) : Writes kept batches l := by
  induction l with
  | returned reply => trivial
  | thrown => trivial
  | read next ih => exact fun s _ => ih s
  | commit batch next ih => exact ⟨all batch,fun s _ => ih s⟩

theorem writesBind {Next : Type} {l : Steps Store Statement Reply} {f : Reply → Steps Store Statement Next}
    (writes : Writes kept batches l) (after : ∀ reply, Writes kept batches (f reply)) :
    Writes kept batches (l.bind f) := by
  induction l with
  | returned reply => exact after reply
  | thrown => trivial
  | read next ih => exact fun s holds => ih s (writes s holds)
  | commit batch next ih => exact ⟨writes.1,fun s holds => ih s (writes.2 s holds)⟩

theorem endsRead {ok : Reply → Prop} {next : Store → Steps Store Statement Reply} (after : ∀ s, kept s → Ends kept ok (next s)) :
    Ends kept ok (.read next) := after

theorem endsBind {Next : Type} {ok : Next → Prop} {l : Steps Store Statement Reply} {f : Reply → Next}
    (all : ∀ reply, ok (f reply)) : Ends kept ok (l.bind fun reply => .returned (f reply)) := by
  induction l with
  | returned reply => exact all reply
  | thrown => trivial
  | read next ih => exact fun s _ => ih s
  | commit batch next ih => exact fun s _ => ih s

theorem writesOver {Wide : Type} {view : Wide → Store} {l : Steps Store Statement Reply}
    (writes : Writes kept batches l) : Writes (fun x => kept (view x)) batches (l.over view) := by
  induction l with
  | returned reply => trivial
  | thrown => trivial
  | read next ih => exact fun x holds => ih (view x) (writes (view x) holds)
  | commit batch next ih => exact ⟨writes.1,fun x holds => ih (view x) (writes.2 (view x) holds)⟩

end

inductive Gates (Store : Type) where
  | none
  | gate (isOpen : Store → Prop) (rest : Store → Gates Store)

def Gates.all : List (Store → Prop) → Gates Store
  | [] => .none
  | isOpen :: rest => .gate isOpen (fun _ => .all rest)

section
variable (free : List Statement → Prop) (refused : Reply → Prop)

/- A commit reads the store that it finds. -/
def Gated : Steps Store Statement Reply → Gates Store → Prop
  | .returned reply, gates => gates = .none ∨ refused reply
  | .thrown, _ => True
  | .read next, gates => ∀ s, Gated (next s) gates ∨
      ∃ isOpen rest, gates = .gate isOpen rest ∧ isOpen s ∧ Gated (next s) (rest s)
  | .commit batch next, gates => (gates = .none ∨ free batch) ∧ ∀ s, Gated (next s) gates ∨
      ∃ isOpen rest, gates = .gate isOpen rest ∧ isOpen s ∧ Gated (next s) (rest s)

end

section
variable {free : List Statement → Prop} {refused : Reply → Prop} {gates : Gates Store}

theorem gatedNone (l : Steps Store Statement Reply) : Gated free refused l .none := by
  induction l with
  | returned reply => exact .inl rfl
  | thrown => trivial
  | read next ih => exact fun s => .inl (ih s)
  | commit batch next ih => exact ⟨.inl rfl,fun s => .inl (ih s)⟩

theorem gatedRead {next : Store → Steps Store Statement Reply} (after : ∀ s, Gated free refused (next s) gates) :
    Gated free refused (.read next) gates := fun s => .inl (after s)

theorem gatedGate {isOpen : Store → Prop} {rest : Store → Gates Store} {next : Store → Steps Store Statement Reply}
    (shut : ∀ s, ¬ isOpen s → Gated free refused (next s) (.gate isOpen rest))
    (opens : ∀ s, isOpen s → Gated free refused (next s) (rest s)) : Gated free refused (.read next) (.gate isOpen rest) := by
  intro s
  by_cases passes : isOpen s
  · exact .inr ⟨isOpen,rest,rfl,passes,opens s passes⟩
  · exact .inl (shut s passes)

theorem gatedFree {l : Steps Store Statement Reply} (writes : Writes (fun _ => True) free l)
    (ends : ∀ reply : Reply, refused reply) : Gated free refused l gates := by
  induction l with
  | returned reply => exact .inr (ends reply)
  | thrown => trivial
  | read next ih => exact fun s => .inl (ih s (writes s trivial))
  | commit batch next ih => exact ⟨.inr writes.1,fun s => .inl (ih s (writes.2 s trivial))⟩

theorem gatedEnds {l : Steps Store Statement Reply} (ends : Ends (fun _ => True) refused l) (all : ∀ batch, free batch) :
    Gated free refused l gates := by
  induction l with
  | returned reply => exact .inr ends
  | thrown => trivial
  | read next ih => exact fun s => .inl (ih s (ends s trivial))
  | commit batch next ih => exact ⟨.inr (all batch),fun s => .inl (ih s (ends s trivial))⟩

theorem gatedUnless {isOpen : Store → Prop} {l : Steps Store Statement Reply} (writes : Writes (fun s => ¬ isOpen s) free l)
    (ends : ∀ reply : Reply, refused reply) : Gated free refused l (.all [isOpen]) := by
  have step {next : Store → Steps Store Statement Reply}
      (ih : ∀ s, Writes (fun s => ¬ isOpen s) free (next s) → Gated free refused (next s) (.all [isOpen]))
      (later : ∀ s, ¬ isOpen s → Writes (fun s => ¬ isOpen s) free (next s)) (s : Store) :
      Gated free refused (next s) (.all [isOpen]) ∨
        ∃ first rest, Gates.all [isOpen] = .gate first rest ∧ first s ∧ Gated free refused (next s) (rest s) := by
    by_cases opens : isOpen s
    · exact .inr ⟨isOpen,_,rfl,opens,gatedNone _⟩
    · exact .inl (ih s (later s opens))
  induction l with
  | returned reply => exact .inr (ends reply)
  | thrown => trivial
  | read next ih => exact step ih writes
  | commit batch next ih => exact ⟨.inr writes.1,step ih writes.2⟩

end

section
variable (p : System Store Statement Call Reply)

/- The moves lead through stores that open the gates one after the other, down to what is left. -/
inductive Passes : Config Store Statement Reply → List (Move Call) → Gates Store → Gates Store → Prop where
  | here {c moves gates} : Passes c moves gates gates
  | through {c mid isOpen rest left} (before after : List (Move Call)) (ran : run p c before = some mid)
      (opens : isOpen mid.store) (more : Passes mid after (rest mid.store) left) :
      Passes c (before ++ after) (.gate isOpen rest) left

def Cleared (s : Store) (moves : List (Move Call)) (i : Nat) (gates : Gates Store) : Prop :=
  ∃ before call after mid, moves = before ++ .begin call :: after ∧ run p (begins s) before = some mid ∧
    mid.calls.length = i ∧ Passes p ⟨mid.store,mid.calls ++ [p.start call i]⟩ after gates .none

variable {p} {c mid last : Config Store Statement Reply} {moves before after : List (Move Call)}
  {gates left : Gates Store}

theorem passesLater (ran : run p c before = some mid) (passes : Passes p mid after gates left) :
    Passes p c (before ++ after) gates left := by
  cases passes with
  | here => exact .here
  | through first second reached opens more =>
    rw [← List.append_assoc]
    exact .through (before ++ first) second (by rw [runAppend,ran]; exact reached) opens more

theorem passesThen (passes : Passes p c before gates left) (ran : run p c before = some mid) {rest : Gates Store}
    (more : Passes p mid after left rest) : Passes p c (before ++ after) gates rest := by
  induction passes with
  | here => exact passesLater ran more
  | @through c first isOpen others left before later reached opens _ ih =>
    rw [runAppend,reached] at ran
    rw [List.append_assoc]
    exact .through before (later ++ after) reached opens (ih ran more)

theorem passesFirst {isOpen : Store → Prop} {rest : Store → Gates Store} (passes : Passes p c moves (.gate isOpen rest) .none) :
    ∃ first second mid, moves = first ++ second ∧ run p c first = some mid ∧ isOpen mid.store ∧
      Passes p mid second (rest mid.store) .none := by
  cases passes with
  | through first second ran opens more => exact ⟨first,second,_,rfl,ran,opens,more⟩

theorem passesGate {isOpen : Store → Prop} {list : List (Store → Prop)} (member : isOpen ∈ list)
    (passes : Passes p c moves (.all list) .none) : ∃ first mid, first <+: moves ∧ run p c first = some mid ∧ isOpen mid.store := by
  induction list generalizing c moves with
  | nil => cases member
  | cons other rest ih =>
    obtain ⟨before,after,mid,rfl,ran,opens,more⟩ := passesFirst passes
    rcases List.mem_cons.mp member with rfl | later
    · exact ⟨before,mid,List.prefix_append before after,ran,opens⟩
    · obtain ⟨first,last,⟨others,rfl⟩,reached,opens⟩ := ih later more
      exact ⟨before ++ first,last,⟨others,List.append_assoc ..⟩,by rw [runAppend,ran]; exact reached,opens⟩

theorem clearedGate {s : Store} {i : Nat} {isOpen : Store → Prop} {list : List (Store → Prop)} (member : isOpen ∈ list)
    (cleared : Cleared p s moves i (.all list)) :
    ∃ first mid, first <+: moves ∧ run p (begins s) first = some mid ∧ isOpen mid.store := by
  obtain ⟨before,call,after,mid,rfl,ran,rfl,passes⟩ := cleared
  obtain ⟨first,last,⟨others,rfl⟩,reached,opens⟩ := passesGate member passes
  refine ⟨before ++ .begin call :: first,last,⟨others,by simp⟩,?_,opens⟩
  rw [runAppend,ran]
  exact reached

variable {free : List Statement → Prop} {refused : Reply → Prop}

theorem gatedRun {l l' : Steps Store Statement Reply} {i : Nat} (found : c.calls[i]? = some l)
    (gated : Gated free refused l gates) (ran : run p c moves = some last) (there : last.calls[i]? = some l') :
    ∃ left, Passes p c moves gates left ∧ Gated free refused l' left := by
  induction moves generalizing c l gates with
  | nil =>
    cases Option.some.inj ran
    cases Option.some.inj (found.symm.trans there)
    exact ⟨gates,.here,gated⟩
  | cons m rest ih =>
    have whole := ran
    obtain ⟨next,moved,ran⟩ := Option.bind_eq_some_iff.mp ran
    have one : run p c [m] = some next := by simp [run,moved]
    have carry {gates left : Gates Store} (passes : Passes p next rest gates left) : Passes p c (m :: rest) gates left :=
      passesLater one passes
    obtain ⟨call,rfl,rfl⟩ | ⟨index,k,k',s,rfl,at_,stepped,rfl⟩ := moveCases moved
    · have kept : (c.calls ++ [p.start call c.calls.length])[i]? = some l := by
        rw [List.getElem?_append_left (List.getElem?_eq_some_iff.mp found).1]
        exact found
      obtain ⟨left,passes,gated⟩ := ih kept gated ran
      exact ⟨left,carry passes,gated⟩
    · by_cases own : index = i
      · subst own
        cases Option.some.inj (found.symm.trans at_)
        have stays (k' : Steps Store Statement Reply) : (c.calls.set index k')[index]? = some k' :=
          List.getElem?_set_self (List.getElem?_eq_some_iff.mp found).1
        obtain ⟨after,rfl,rfl,rfl⟩ | ⟨batch,after,rfl,applied,rfl⟩ | ⟨batch,after,rfl,rfl,rfl⟩ := advanceCases stepped
        · rcases gated c.store with same | ⟨isOpen,others,rfl,opens,same⟩
          · obtain ⟨left,passes,gated⟩ := ih (stays _) same ran
            exact ⟨left,carry passes,gated⟩
          · obtain ⟨left,passes,gated⟩ := ih (stays _) same ran
            exact ⟨left,.through [] _ rfl opens (carry passes),gated⟩
        · rcases gated.2 c.store with same | ⟨isOpen,others,rfl,opens,same⟩
          · obtain ⟨left,passes,gated⟩ := ih (stays _) same ran
            exact ⟨left,carry passes,gated⟩
          · obtain ⟨left,passes,gated⟩ := ih (stays _) same ran
            exact ⟨left,.through [] _ rfl opens (carry passes),gated⟩
        · have ended : Gated free refused (.thrown : Steps Store Statement Reply) gates := trivial
          obtain ⟨left,passes,gated⟩ := ih (stays _) ended ran
          exact ⟨left,carry passes,gated⟩
      · have kept : (c.calls.set index k')[i]? = some l := by
          rw [List.getElem?_set_ne own]
          exact found
        obtain ⟨left,passes,gated⟩ := ih kept gated ran
        exact ⟨left,carry passes,gated⟩

theorem begunLength (ran : run p c moves = some last) : last.calls.length = c.calls.length + (begun moves).length := by
  induction moves generalizing c with
  | nil =>
    cases Option.some.inj ran
    rfl
  | cons m rest ih =>
    obtain ⟨next,moved,ran⟩ := Option.bind_eq_some_iff.mp ran
    obtain ⟨call,rfl,rfl⟩ | ⟨index,l,l',s,rfl,found,stepped,rfl⟩ := moveCases moved
    · rw [ih ran]
      simp only [List.length_append,List.length_cons,List.length_nil,begun]
      omega
    · rw [ih ran]
      simp [begun]

theorem begunAt {s : Store} {i : Nat} {call : Call} (ran : run p (begins s) moves = some last)
    (named : (begun moves)[i]? = some call) : ∃ before after mid, moves = before ++ .begin call :: after ∧
      run p (begins s) before = some mid ∧ mid.calls.length = i ∧
      run p ⟨mid.store,mid.calls ++ [p.start call i]⟩ after = some last := by
  have from_ (c : Config Store Statement Reply) (moves : List (Move Call)) (ran : run p c moves = some last) (i : Nat)
      (named : (begun moves)[i]? = some call) : ∃ before after mid, moves = before ++ .begin call :: after ∧
        run p c before = some mid ∧ mid.calls.length = c.calls.length + i ∧
        run p ⟨mid.store,mid.calls ++ [p.start call (c.calls.length + i)]⟩ after = some last := by
    induction moves generalizing c i with
    | nil => cases named
    | cons m rest ih =>
      obtain ⟨next,moved,later⟩ := Option.bind_eq_some_iff.mp ran
      have one : run p c [m] = some next := by simp [run,moved]
      obtain ⟨other,rfl,rfl⟩ | ⟨index,k,k',u,rfl,at_,stepped,rfl⟩ := moveCases moved
      · cases i with
        | zero =>
          cases Option.some.inj named
          exact ⟨[],rest,c,rfl,rfl,rfl,later⟩
        | succ i =>
          obtain ⟨before,after,mid,rfl,reached,number,ends⟩ := ih _ later i named
          have count : mid.calls.length = c.calls.length + (i + 1) := by simpa [Nat.add_assoc,Nat.add_comm 1] using number
          refine ⟨_ :: before,after,mid,rfl,by simp [run,moved,reached],count,?_⟩
          rw [← number,count] at ends
          exact ends
      · obtain ⟨before,after,mid,rfl,reached,number,ends⟩ := ih _ later i named
        refine ⟨_ :: before,after,mid,rfl,by simp [run,moved,reached],by simpa using number,?_⟩
        simpa using ends
  simpa [begins] using from_ (begins s) moves ran i named

theorem returnedAt {i : Nat} {reply : Reply} (answered : c.replies[i]? = some (some reply)) :
    c.calls[i]? = some (.returned reply) := by
  obtain ⟨l,found,said⟩ := Option.map_eq_some_iff.mp ((List.getElem?_map ..).symm.trans answered)
  cases l with
  | returned other =>
    cases Option.some.inj said
    exact found
  | thrown => cases said
  | read next => cases said
  | commit batch next => cases said

/-- A call that is about to commit what is not free has passed all its gates since it began. -/
theorem committedCleared {s : Store} {i : Nat} {call : Call} {batch : List Statement}
    {next : Store → Steps Store Statement Reply} (gated : Gated free refused (p.start call i) gates)
    (ran : run p (begins s) moves = some last) (named : (begun moves)[i]? = some call)
    (there : last.calls[i]? = some (.commit batch next)) (taken : ¬ free batch) : Cleared p s moves i gates := by
  obtain ⟨before,after,mid,rfl,reached,rfl,ends⟩ := begunAt ran named
  obtain ⟨left,passes,rest⟩ := gatedRun (by simp) gated ends there
  have all : left = .none := rest.1.resolve_right taken
  exact ⟨before,call,after,mid,rfl,reached,rfl,all ▸ passes⟩

theorem answeredCleared {s : Store} {i : Nat} {call : Call} {reply : Reply}
    (gated : Gated free refused (p.start call i) gates) (ran : run p (begins s) moves = some last)
    (named : (begun moves)[i]? = some call) (answered : last.replies[i]? = some (some reply))
    (granted : ¬ refused reply) : Cleared p s moves i gates := by
  obtain ⟨before,after,mid,rfl,reached,rfl,ends⟩ := begunAt ran named
  obtain ⟨left,passes,rest⟩ := gatedRun (by simp) gated ends (returnedAt answered)
  have all : left = .none := rest.resolve_right granted
  exact ⟨before,call,after,mid,rfl,reached,rfl,all ▸ passes⟩

end
end FamilyPlatform.Interleaving
