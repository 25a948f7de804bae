import FamilyPlatform.Identity.Sessions

/-! A revoked session stays dead, as long as no save brings an unrevoked copy of it back. -/
namespace FamilyPlatform.Identity
open Interleaving (applyAll applyAllKeeps Ends Within Move Config run begins Reaches runAppend
  withinAppend runEnds)

def Revoked (id : SessionId) (s : Store) : Prop := ∃ r ∈ s.sessions.rows, r.id = id ∧ r.revokedAt ≠ none

instance (id s) : Decidable (Revoked id s) := by unfold Revoked; infer_instance

def accepts (id : SessionId) : Reply → Bool
  | .authenticated _ sessionId => sessionId = id
  | .renewed sessionId _ => sessionId = id
  | .failed _ | .issued _ _ | .done => false

def Revives (s : Store) : Statement → Prop
  | .saveSession row => row.revokedAt = none ∧ Revoked row.id s
  | .saveUser _ | .append _ => False

def RevivesNone (batch : List Statement) (s : Store) : Prop := ∀ w ∈ batch, ¬ Revives s w

instance (s w) : Decidable (Revives s w) := by cases w <;> unfold Revives <;> infer_instance
instance (batch s) : Decidable (RevivesNone batch s) := by unfold RevivesNone; infer_instance

theorem revokedStays {id : SessionId} {w : Statement} {s t : Store} (revoked : Revoked id s)
    (saved : ∀ row, w = .saveSession row → row.id = id → row.revokedAt ≠ none)
    (applied : apply w s = some t) : Revoked id t := by
  have after := applySource applied
  obtain ⟨r,there,same,dead⟩ := revoked
  cases w with
  | saveUser u => exact ⟨r,by rw [after]; exact there,same,dead⟩
  | append userId => exact ⟨r,by rw [after]; exact there,same,dead⟩
  | saveSession row =>
    have rows : t.sessions = upsertSession s.sessions row := by rw [after]; rfl
    by_cases own : row.id = id
    · refine ⟨{ row with id := r.id, issuedAt := r.issuedAt },?_,same,saved row rfl own⟩
      rw [rows,upsertSession,Table.memUpsert]
      exact .inr (.inr ⟨r,there,same.trans own.symm,rfl⟩)
    · refine ⟨r,?_,same,dead⟩
      rw [rows,upsertSession,Table.memUpsert]
      exact .inl ⟨there,fun equal => own (equal.symm.trans same)⟩

theorem revokedBatch {id : SessionId} {batch : List Statement} {s t : Store} (revoked : Revoked id s)
    (none : RevivesNone batch s) (applied : applyAll apply batch s = some t) : Revoked id t := by
  have each : ∀ w ∈ batch, ∀ u u', Revoked id u → apply w u = some u' → Revoked id u' := by
    intro w mem u u' holds step
    refine revokedStays holds ?_ step
    rintro row rfl same alive
    exact none _ mem ⟨alive,same ▸ revoked⟩
  exact applyAllKeeps each revoked applied

/- A revoked row is the only one of its session, so a context read of it is dead. -/
theorem contextRevoked {id : SessionId} {s : Store} {hash context} (revoked : Revoked id s)
    (found : findAuthContextByTokenHash hash s = some context) (same : context.session.id = id) :
    context.session.revokedAt ≠ none := by
  obtain ⟨r,there,own,dead⟩ := revoked
  rw [Table.equalOfKey (findAuthContextSource found) there (same.trans own.symm)]
  exact dead

section
variable {id : SessionId} {now : Instant}

theorem authenticateRefuses {tokenHash : String} :
    Ends (Revoked id) (fun reply => accepts id reply = false) (authenticateSession now tokenHash) := by
  unfold authenticateSession
  intro s revoked
  dsimp only
  split
  · rfl
  · rename_i context found
    split
    · exact fun _ _ => rfl
    · split
      · rfl
      · rename_i usable
        refine decide_eq_false fun same => usable ?_
        simp [Session.revokedUnusable (contextRevoked revoked found same)]

theorem renewRefuses {tokenHash newTokenHash : String} :
    Ends (Revoked id) (fun reply => accepts id reply = false) (renewSession now tokenHash newTokenHash) := by
  unfold renewSession
  intro s revoked
  dsimp only
  split
  · rfl
  · rename_i context found
    split
    · exact fun _ _ => rfl
    · split
      · rfl
      · rename_i rotated ok
        obtain ⟨alive,own⟩ := Session.rotateSource ok
        intro t _
        exact decide_eq_false fun same => contextRevoked revoked found (own ▸ same) alive

theorem revokeRefuses {userId : UserId} {sessionId : SessionId} :
    Ends (Revoked id) (fun reply => accepts id reply = false) (revokeSession now userId sessionId) := by
  unfold revokeSession
  intro s revoked
  dsimp only
  split
  · rfl
  · split
    · rfl
    · exact fun _ _ => rfl

theorem deletionRefuses {userId : UserId} :
    Ends (Revoked id) (fun reply => accepts id reply = false) (requestAccountDeletion now userId) := by
  unfold requestAccountDeletion
  intro s revoked
  dsimp only
  split
  · rfl
  · split
    · rfl
    · exact fun _ _ _ _ => rfl

theorem startEnds (id : SessionId) (call : Call) (n : Nat) :
    Ends (Revoked id) (fun reply => accepts id reply = false) (start call n) := by
  cases call with
  | authenticateSession now tokenHash => exact authenticateRefuses
  | renewSession now tokenHash newTokenHash => exact renewRefuses
  | revokeSession now userId sessionId => exact revokeRefuses
  | requestAccountDeletion now userId => exact deletionRefuses

end

/-- Once a session's revocation has committed, no call begun later accepts a credential of
the session, where no renewal saves an unrevoked copy over a revoked row. -/
theorem runRevoked {id : SessionId} {s : Store} {before after : List (Move Call)}
    {mid last : Config Store Statement Reply}
    (revives : Within commands RevivesNone (begins s) (before ++ after))
    (reached : run commands (begins s) before = some mid) (revoked : Revoked id mid.store)
    (ran : run commands (begins s) (before ++ after) = some last) :
    Revoked id last.store ∧ ∀ i reply, mid.calls.length ≤ i → last.calls[i]? = some (.returned reply) →
      accepts id reply = false := by
  rw [runAppend,reached] at ran
  have keeps : ∀ batch s u, RevivesNone batch s → Revoked id s → applyAll apply batch s = some u →
      Revoked id u := fun _ _ _ none holds => revokedBatch holds none
  obtain ⟨stays,ends⟩ := runEnds (startEnds id) keeps revoked (withinAppend revives reached) ran
  exact ⟨stays,fun i reply later at_ => ends i _ later at_⟩

def ann : Table User User.id := ⟨[⟨1,⟨"ann@example.org"⟩,"hash",.active,some 0,none,0,none,0⟩],by decide⟩

def signedIn : Store :=
  ⟨⟨ann,⟨[⟨0,1,0,"first",none,0,none,1000,none,none⟩],by decide⟩,[]⟩,by decide⟩

def revokedFirst : List (Move Call) :=
  [.begin (.renewSession 1 "first" "second"),.begin (.revokeSession 2 1 0),.advance 0,.advance 0,
    .advance 1,.advance 1]

theorem revokedFirstRefuses :
    Reaches commands (begins signedIn) (revokedFirst ++
        [.begin (.authenticateSession 3 "second"),.advance 2])
      (fun c => Revoked 0 c.store ∧ ∀ i reply, 2 ≤ i → c.calls[i]? = some (.returned reply) →
        accepts 0 reply = false) := by
  obtain ⟨mid,reached,revoked,begun⟩ : Reaches commands (begins signedIn) revokedFirst
      (fun c => Revoked 0 c.store ∧ c.calls.length = 2) := by decide +kernel
  obtain ⟨last,ran⟩ := Option.isSome_iff_exists.mp (by decide +kernel : (run commands (begins signedIn)
    (revokedFirst ++ [.begin (.authenticateSession 3 "second"),.advance 2])).isSome)
  exact ⟨last,ran,begun ▸ runRevoked (by decide +kernel) reached revoked ran⟩

def renewalUnderWay : List (Move Call) :=
  [.begin (.renewSession 1 "first" "second"),.begin (.revokeSession 2 1 0),.advance 0,.advance 1,
    .advance 1]

/- Its save revives the session, and the credential it issued is accepted. -/
theorem renewalUnderWayAccepted :
    Reaches commands (begins signedIn) renewalUnderWay
      (fun c => Revoked 0 c.store ∧ c.replies = [none,some .done]) ∧
    Reaches commands (begins signedIn) (renewalUnderWay ++
        [.advance 0,.begin (.authenticateSession 3 "second"),.advance 2])
      (fun c => c.replies = [some (.renewed 0 "second"),some .done,some (.authenticated 1 0)]) := by
  decide +kernel

end FamilyPlatform.Identity
