import Mathlib.Logic.Basic

/-! A unit of work: statements over a state, one after the other, until one of them
raises. It keeps what it has written if its body returns, and nothing if the body raises. -/
namespace FamilyPlatform.UnitOfWork

structure Session (σ : Type) where
  state : σ
  statements : Nat

/- What was written before a raise is still there to be rolled back. -/
abbrev Body (σ ε : Type) := ExceptT ε (StateM (Session σ))

variable {σ ε α β : Type}

def statement (outage : Nat → Option ε) (work : σ → Except ε (α × σ)) : Body σ ε α := fun session =>
  let counted := session.statements + 1
  match outage session.statements with
  | some lost => (.error lost, ⟨session.state,counted⟩)
  | none => match work session.state with
    | .error e => (.error e, ⟨session.state,counted⟩)
    | .ok (value, next) => (.ok value, ⟨next,counted⟩)

def transaction (body : Body σ ε α) (state : σ) : Except ε α × σ :=
  match body.run ⟨state,0⟩ with
  | (.ok value, last) => (.ok value, last.state)
  | (.error e, _) => (.error e, state)

def Returns (body : Body σ ε α) (session : Session σ) (post : α → σ → Prop) : Prop :=
  ∀ value last, body.run session = (.ok value, last) → post value last.state

section
variable {body : Body σ ε α} {session : Session σ} {post : α → σ → Prop}

theorem runBind (body : Body σ ε α) (next : α → Body σ ε β) (session : Session σ) :
    (body >>= next).run session = match body.run session with
      | (.ok a, later) => (next a).run later
      | (.error e, later) => (.error e, later) := by
  unfold ExceptT.run
  simp only [bind,ExceptT.bind,ExceptT.mk,StateT.bind,ExceptT.bindCont]
  cases body session with
  | mk outcome later => cases outcome <;> rfl

theorem runCaught (body : Body σ ε α) (handler : ε → Body σ ε α) (session : Session σ) :
    (tryCatch body handler).run session = match body.run session with
      | (.ok a, later) => (.ok a, later)
      | (.error e, later) => (handler e).run later := by
  unfold ExceptT.run
  simp only [tryCatch,tryCatchThe,MonadExceptOf.tryCatch,ExceptT.tryCatch,ExceptT.mk,bind,StateT.bind]
  cases body session with
  | mk outcome later => cases outcome <;> rfl

theorem returnsPure {value : α} (holds : post value session.state) : Returns (pure value : Body σ ε α) session post := by
  intro _ _ ran
  cases ran
  exact holds

theorem returnsRaise {e : ε} : Returns (throw e : Body σ ε α) session post := by
  intro _ _ ran
  cases ran

theorem returnsBind {next : α → Body σ ε β} {after : β → σ → Prop}
    (first : Returns body session (fun value state => ∀ n, Returns (next value) ⟨state,n⟩ after)) :
    Returns (body >>= next) session after := by
  intro value last ran
  rw [runBind] at ran
  cases one : body.run session with
  | mk outcome later =>
    rw [one] at ran
    cases outcome with
    | error e => cases ran
    | ok a => exact first a later one later.statements value last ran

theorem returnsStatement {outage : Nat → Option ε} {work : σ → Except ε (α × σ)}
    (holds : ∀ value next, work session.state = .ok (value, next) → post value next) :
    Returns (statement outage work) session post := by
  intro value last ran
  unfold ExceptT.run statement at ran
  simp only at ran
  split at ran
  · cases ran
  · split at ran
    · cases ran
    · rename_i done
      cases ran
      exact holds _ _ done

theorem returnsCaught {handler : ε → Body σ ε α} (holds : Returns body session post)
    (raises : ∀ e later, Returns (handler e) later post) : Returns (tryCatch body handler) session post := by
  intro value last ran
  rw [runCaught] at ran
  cases one : body.run session with
  | mk outcome later =>
    rw [one] at ran
    cases outcome with
    | error e => exact raises e later value last ran
    | ok a =>
      cases ran
      exact holds _ _ one

theorem transactionKeeps {state : σ} (holds : Returns body ⟨state,0⟩ post) :
    (∃ value, (transaction body state).1 = .ok value ∧ post value (transaction body state).2) ∨
    (∃ e, (transaction body state).1 = .error e ∧ (transaction body state).2 = state) := by
  unfold transaction
  cases ran : body.run ⟨state,0⟩ with
  | mk outcome last =>
    cases outcome with
    | error e => exact .inr ⟨e,rfl,rfl⟩
    | ok value => exact .inl ⟨value,rfl,holds value last ran⟩

end
end FamilyPlatform.UnitOfWork
