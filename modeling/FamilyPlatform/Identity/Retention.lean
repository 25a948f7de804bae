import FamilyPlatform.Lib.Serial
import FamilyPlatform.Identity.Credentials

/-! What the retention periods run from: the revocation of a session, and the request to
delete an account. Both are written by commands that may well come again. -/
namespace FamilyPlatform.Identity
open Interleaving (applyAll applyAllKeeps applyAllOver alone serial SerialWithin serialStays)

def sessionRetentionMs : Int := 90 * 24 * 60 * 60 * 1000

def Session.stale (cutoff : Instant) (r : Session) : Bool :=
  r.revokedAt.any (· < cutoff) || r.absoluteExpiresAt < cutoff

theorem staleLegal (cutoff : Instant) (s : Store) :
    Legal { s.toTables with sessions := s.sessions.deleteWhere (Session.stale cutoff) } :=
  ⟨s.legal.1,fun a left b right => s.legal.2.1 a (List.mem_of_mem_filter left) b (List.mem_of_mem_filter right),
    fun r mem => s.legal.2.2 r (List.mem_of_mem_filter mem)⟩

def deleteStaleSessionsBefore (cutoff : Instant) (s : Store) : Nat × Store :=
  (s.sessions.rows.countP (Session.stale cutoff),
    ⟨{ s.toTables with sessions := s.sessions.deleteWhere (Session.stale cutoff) },staleLegal cutoff s⟩)

def runEraseStaleSessionsSweep (now : Instant) (s : Store) : Nat × Store :=
  deleteStaleSessionsBefore (now - sessionRetentionMs) s

def revocation (id : SessionId) (s : Store) : Option (Instant × Option SessionRevokedReason) := do
  let r ← s.sessions.find id
  let revokedAt ← r.revokedAt
  some (revokedAt,r.revokedReason)

theorem revocationSource {id : SessionId} {s : Store} {ended : Instant × Option SessionRevokedReason} :
    revocation id s = some ended ↔
      ∃ r, s.sessions.find id = some r ∧ r.revokedAt = some ended.1 ∧ r.revokedReason = ended.2 := by
  simp only [revocation,bind,Option.bind_eq_some_iff,Option.some.injEq]
  constructor
  · rintro ⟨r,found,revokedAt,is,rfl⟩
    exact ⟨r,found,is,rfl⟩
  · rintro ⟨r,found,is,reason⟩
    exact ⟨r,found,_,is,by rw [reason]⟩

theorem staleGone {id : SessionId} {s : Store} {ended : Instant × Option SessionRevokedReason} {now : Instant}
    (revoked : revocation id s = some ended) (late : ended.1 + sessionRetentionMs < now) :
    (runEraseStaleSessionsSweep now s).2.sessions.find id = none := by
  obtain ⟨r,found,is,-⟩ := revocationSource.mp revoked
  obtain ⟨there,own⟩ := Table.findSource found
  refine List.find?_eq_none.mpr (fun x mem same => ?_)
  obtain ⟨old,fresh⟩ := List.mem_filter.mp mem
  have one : x = r := Table.equalOfKey old there ((of_decide_eq_true same).trans own.symm)
  have before : (ended.1 : Int) < now - sessionRetentionMs := Int.lt_sub_right_of_add_lt late
  simp [Session.stale,one,is,before] at fresh

namespace Call

def now : Call → Instant
  | .authenticateSession now _ | .renewSession now _ _ | .revokeSession now _ _ | .requestAccountDeletion now _ => now

def reason : Call → SessionRevokedReason
  | .authenticateSession _ _ | .renewSession _ _ _ => .replayDetected
  | .revokeSession _ _ _ => .userRevoked
  | .requestAccountDeletion _ _ => .accountDeleted

def revokes (s : Store) : Call → List Session
  | .authenticateSession _ tokenHash | .renewSession _ tokenHash _ =>
    match findAuthContextByTokenHash tokenHash s with
    | none => []
    | some context => if context.matchedPrevious then [context.session] else []
  | .revokeSession _ userId sessionId => (findById sessionId s).toList.filter (fun r => r.userId = userId)
  | .requestAccountDeletion _ userId =>
    match s.users.find userId with
    | none => []
    | some user => if user.status = .pendingVerification then [] else listByUserId userId s

end Call

/- None of them is dead already, unless of the same at the same time. -/
def SparesRevoked (call : Call) (s : Store) : Prop :=
  ∀ r ∈ call.revokes s, r.revokedAt ≠ none → r.revokedAt = some call.now ∧ r.revokedReason = some call.reason

instance (call s) : Decidable (SparesRevoked call s) := by unfold SparesRevoked; infer_instance

theorem requestedSource {u requested : User} {now : Instant} (ok : u.requestDeletion now = .ok requested) :
    requested.id = u.id ∧ requested.email = u.email ∧ requested.createdAt = u.createdAt ∧
      requested.status = .deletionRequested ∧ u.status ≠ .pendingVerification := by
  unfold User.requestDeletion at ok
  split at ok
  · rename_i already
    cases ok
    exact ⟨rfl,rfl,rfl,already,by simp [already]⟩
  · split at ok
    · cases ok
    · rename_i active
      cases ok
      exact ⟨rfl,rfl,rfl,rfl,by simp [not_not.mp active]⟩

theorem requestedError {u : User} {now : Instant} {e : DomainError} (refused : u.requestDeletion now = .error e) :
    u.status = .pendingVerification := by
  unfold User.requestDeletion at refused
  cases status : u.status with
  | pendingVerification => rfl
  | active => simp [status] at refused
  | deletionRequested => simp [status] at refused

theorem requestedApplies {user requested : User} {s : Store} {now : Instant} (found : s.users.find user.id = some user)
    (ok : user.requestDeletion now = .ok requested) : (apply (.saveUser requested) s).isSome := by
  obtain ⟨there,-⟩ := Table.findSource found
  obtain ⟨id,email,-⟩ := requestedSource ok
  have rows : ∀ x ∈ (upsertUser s.users requested).rows, ∃ y ∈ s.users.rows, y.id = x.id ∧ y.email = x.email := by
    intro x mem
    simp only [upsertUser,Table.memUpsert] at mem
    rcases mem with ⟨old,-⟩ | ⟨-,rfl⟩ | ⟨y,old,same,rfl⟩
    · exact ⟨x,old,rfl,rfl⟩
    · exact ⟨user,there,id.symm,email.symm⟩
    · exact ⟨user,there,id.symm.trans same.symm,email.symm⟩
  have legal : Legal (write (.saveUser requested) s.toTables) := by
    refine ⟨fun a left b right same => ?_,s.legal.2.1,fun r mem => ?_⟩
    · obtain ⟨y,old,one,mail⟩ := rows a left
      obtain ⟨z,other,one',mail'⟩ := rows b right
      exact one.symm.trans ((s.legal.1 y old z other (mail.trans (same.trans mail'.symm))).trans one')
    · show ((upsertUser s.users requested).find r.userId).isSome
      rw [upsertUser,Table.findUpsert]
      split
      · rfl
      · exact s.legal.2.2 r mem
  simp [apply,legal]

theorem appendApplies (userId : UserId) (s : Store) : (apply (.append userId) s).isSome := by
  have legal : Legal (write (.append userId) s.toTables) := s.legal
  simp [apply,legal]

theorem revocationsApply {reason : SessionRevokedReason} {now : Instant} {s : Store} {sessions : List Session}
    (there : ∀ r ∈ sessions, r ∈ s.sessions.rows) (apart : (sessions.map Session.id).Nodup) :
    (applyAll apply (sessions.map (fun session => .saveSession (session.revoke reason now))) s).isSome := by
  induction sessions generalizing s with
  | nil => rfl
  | cons r rest ih =>
    obtain ⟨next,saved⟩ := Option.isSome_iff_exists.mp (revocationApplies reason now (there r List.mem_cons_self))
    obtain ⟨fresh,apart⟩ := List.nodup_cons.mp apart
    have rows : next.sessions = upsertSession s.sessions (r.revoke reason now) := by rw [applySource saved]; rfl
    have later := ih (s := next) (fun x mem => ?_) apart
    · simpa [applyAll,saved] using later
    · rw [rows,upsertSession,Table.memUpsert]
      exact .inl ⟨there x (List.mem_cons_of_mem r mem),fun same => fresh (List.mem_map.mpr ⟨x,mem,same⟩)⟩

theorem revokedOutbox {reason : SessionRevokedReason} {now : Instant} {s t : Store} {sessions : List Session}
    (applied : applyAll apply (sessions.map (fun session => .saveSession (session.revoke reason now))) s = some t) :
    t.outbox = s.outbox := by
  have each : ∀ w ∈ sessions.map (fun session => Statement.saveSession (session.revoke reason now)), ∀ u u',
      u.outbox = s.outbox → apply w u = some u' → u'.outbox = s.outbox := by
    intro w mem u u' same step
    obtain ⟨r,-,rfl⟩ := List.mem_map.mp mem
    rw [applySource step]
    exact same
  exact applyAllKeeps each rfl applied

theorem deletionAlone {userId : UserId} {user requested : User} {s : Store} {now : Instant}
    (found : s.users.find userId = some user) (ok : user.requestDeletion now = .ok requested) :
    ∃ t, applyAll apply (.saveUser requested :: ((listByUserId user.id s).map
        (fun session => .saveSession (session.revoke .accountDeleted now)) ++ [.append user.id])) s = some t ∧
      alone apply (requestAccountDeletion now userId) s = (some .done,t) ∧
      t.users = upsertUser s.users requested ∧ t.outbox = s.outbox ++ [userId] ∧
      ∀ k, t.sessions.find k = (s.sessions.find k).map
        (fun r => if k ∈ (listByUserId user.id s).map Session.id then r.revoke .accountDeleted now else r) := by
  have own := (Table.findSource found).2
  obtain ⟨a,first⟩ := Option.isSome_iff_exists.mp (requestedApplies (own.symm ▸ found) ok)
  have sessions := userSaved first
  have listed : (applyAll apply ((listByUserId user.id s).map
      (fun session => .saveSession (session.revoke .accountDeleted now))) a).isSome :=
    revocationsApply (fun r mem => sessions ▸ List.mem_of_mem_filter mem)
      (s.sessions.distinct.sublist (List.filter_sublist.map _))
  obtain ⟨b,second⟩ := Option.isSome_iff_exists.mp listed
  obtain ⟨t,third⟩ := Option.isSome_iff_exists.mp (appendApplies user.id b)
  have saved : applyAll apply (.saveUser requested :: ((listByUserId user.id s).map
      (fun session => .saveSession (session.revoke .accountDeleted now)) ++ [.append user.id])) s = some t := by
    rw [applyAll,first]
    simp only [bind,Option.bind]
    rw [Interleaving.applyAllAppend,second]
    simpa using third
  obtain ⟨users,finds⟩ := revokedAll [] (fun r mem => Table.findMember (List.mem_of_mem_filter mem))
    (fun k => by simp [sessions]) second
  have outbox : b.outbox = a.outbox := revokedOutbox second
  refine ⟨t,saved,?_,?_,?_,fun k => ?_⟩
  · simp only [requestAccountDeletion,alone,found,ok,aloneSave,saved]
  · rw [applySource third,show (write (.append user.id) b.toTables).users = b.users from rfl,users,applySource first]
    rfl
  · rw [applySource third,show (write (.append user.id) b.toTables).outbox = b.outbox ++ [user.id] from rfl,outbox,
      applySource first,own]
    rfl
  · rw [applySource third]
    exact finds k

structure Revokes (rows : List Session) (reason : SessionRevokedReason) (now : Instant) (s t : Store) : Prop where
  ended : ∀ r ∈ rows, revocation r.id t = some (now,some reason)
  others : ∀ k, (∀ r ∈ rows, r.id ≠ k) → revocation k t = revocation k s

theorem Revokes.none {reason : SessionRevokedReason} {now : Instant} {s t : Store}
    (same : ∀ k, revocation k t = revocation k s) : Revokes [] reason now s t :=
  ⟨fun _ mem => absurd mem List.not_mem_nil,fun k _ => same k⟩

theorem Revokes.one {r : Session} {reason : SessionRevokedReason} {now : Instant} {s t : Store}
    (finds : ∀ k, t.sessions.find k = if k = r.id then some (r.revoke reason now) else s.sessions.find k) :
    Revokes [r] reason now s t := by
  refine ⟨fun x mem => ?_,fun k other => ?_⟩
  · obtain rfl := List.mem_singleton.mp mem
    exact revocationSource.mpr ⟨_,by rw [finds,if_pos rfl],rfl,rfl⟩
  · rw [revocation,revocation,finds,if_neg (Ne.symm (other r List.mem_cons_self))]

theorem contextThere {tokenHash : String} {s : Store} {context : SessionAuthContext}
    (found : findAuthContextByTokenHash tokenHash s = some context) :
    s.sessions.find context.session.id = some context.session :=
  Table.findMember (findAuthContextSource found)

theorem replayRevoked {tokenHash : String} {context : SessionAuthContext} {s : Store} {now : Instant}
    (found : findAuthContextByTokenHash tokenHash s = some context) :
    Revokes [context.session] .replayDetected now s (alone apply (replayDetected context now) s).2 := by
  obtain ⟨t,replied,-,finds⟩ := replayRevokes now (contextThere found)
  rw [replied]
  exact .one finds

theorem rotationSpares {session rotated : Session} {newTokenHash : String} {now : Instant} {s : Store} {reply : Reply}
    (there : s.sessions.find session.id = some session) (ok : session.rotate newTokenHash now = .ok rotated)
    (k : SessionId) : revocation k (alone apply (save [.saveSession rotated] reply) s).2 = revocation k s := by
  have alive := (Session.rotateSource ok).1
  have row : rotated.id = session.id ∧ rotated.issuedAt = session.issuedAt ∧ rotated.revokedAt = none := by
    simp only [Session.rotate] at ok
    split at ok <;> try contradiction
    cases ok
    exact ⟨rfl,rfl,alive⟩
  obtain ⟨own,issued,spared⟩ := row
  rw [aloneSave,Interleaving.applyAllOne]
  cases saved : apply (.saveSession rotated) s with
  | none => rfl
  | some t =>
    simp only [revocation,(sessionSaved (own.symm ▸ there) issued saved).2 k]
    split
    · rename_i same
      rw [same,own,there]
      simp [alive,spared]
    · rfl

theorem authenticationRevokes (now : Instant) (tokenHash : String) (s : Store) :
    Revokes ((Call.authenticateSession now tokenHash).revokes s) .replayDetected now s
      (alone apply (authenticateSession now tokenHash) s).2 := by
  simp only [authenticateSession,alone,Call.revokes]
  cases found : findAuthContextByTokenHash tokenHash s with
  | none => exact .none fun _ => rfl
  | some context =>
    cases previous : context.matchedPrevious with
    | true => simpa [previous] using replayRevoked found
    | false =>
      simp only [previous,Bool.false_eq_true,if_false]
      split <;> exact .none fun _ => rfl

theorem renewalRevokes (now : Instant) (tokenHash newTokenHash : String) (s : Store) :
    Revokes ((Call.renewSession now tokenHash newTokenHash).revokes s) .replayDetected now s
      (alone apply (renewSession now tokenHash newTokenHash) s).2 := by
  simp only [renewSession,alone,Call.revokes]
  cases found : findAuthContextByTokenHash tokenHash s with
  | none => exact .none fun _ => rfl
  | some context =>
    cases previous : context.matchedPrevious with
    | true => simpa [previous] using replayRevoked found
    | false =>
      simp only [previous,Bool.false_eq_true,if_false]
      cases rotated : context.session.rotate newTokenHash now with
      | error e => exact .none fun _ => rfl
      | ok row => exact .none (rotationSpares (contextThere found) rotated)

theorem revokeRevokes (now : Instant) (userId : UserId) (sessionId : SessionId) (s : Store) :
    Revokes ((Call.revokeSession now userId sessionId).revokes s) .userRevoked now s
      (alone apply (revokeSession now userId sessionId) s).2 := by
  simp only [revokeSession,alone,Call.revokes,findById]
  cases found : s.sessions.find sessionId with
  | none => exact .none fun _ => rfl
  | some session =>
    by_cases theirs : session.userId = userId
    · obtain ⟨there,own⟩ := Table.findSource found
      obtain ⟨t,saved⟩ := Option.isSome_iff_exists.mp (revocationApplies .userRevoked now there)
      have found' : s.sessions.find (session.revoke .userRevoked now).id = some session := own ▸ found
      have revokes : Revokes [session] .userRevoked now s t := .one (sessionSaved found' rfl saved).2
      simpa [theirs,aloneSave,saved] using revokes
    · have spares : Revokes [] .userRevoked now s s := .none fun _ => rfl
      simpa [theirs] using spares

theorem deletionRevokes (now : Instant) (userId : UserId) (s : Store) :
    Revokes ((Call.requestAccountDeletion now userId).revokes s) .accountDeleted now s
      (alone apply (requestAccountDeletion now userId) s).2 := by
  simp only [Call.revokes]
  cases found : s.users.find userId with
  | none => exact .none fun _ => by simp [requestAccountDeletion,alone,found]
  | some user =>
    cases ok : user.requestDeletion now with
    | error e =>
      simp only [requestedError ok,if_true]
      exact .none fun _ => by simp [requestAccountDeletion,alone,found,ok]
    | ok requested =>
      obtain ⟨t,-,replied,-,-,finds⟩ := deletionAlone found ok
      rw [(Table.findSource found).2] at finds
      simp only [replied,if_neg (requestedSource ok).2.2.2.2]
      refine ⟨fun r mem => ?_,fun k other => ?_⟩
      · have there := Table.findMember (List.mem_of_mem_filter mem)
        refine revocationSource.mpr ⟨r.revoke .accountDeleted now,?_,rfl,rfl⟩
        rw [finds,there,Option.map_some,if_pos (List.mem_map_of_mem mem)]
      · have unlisted : k ∉ (listByUserId userId s).map Session.id := fun mem => by
          obtain ⟨r,listed,same⟩ := List.mem_map.mp mem
          exact other r listed same
        simp [revocation,finds,unlisted]

theorem callRevokes (call : Call) (n : Nat) (s : Store) :
    Revokes (call.revokes s) call.reason call.now s (alone apply (start call n) s).2 := by
  cases call with
  | authenticateSession now tokenHash => exact authenticationRevokes now tokenHash s
  | renewSession now tokenHash newTokenHash => exact renewalRevokes now tokenHash newTokenHash s
  | revokeSession now userId sessionId => exact revokeRevokes now userId sessionId s
  | requestAccountDeletion now userId => exact deletionRevokes now userId s

theorem revokesThere {call : Call} {s : Store} {r : Session} (mem : r ∈ call.revokes s) :
    s.sessions.find r.id = some r := by
  have context {tokenHash : String} (mem : r ∈ match findAuthContextByTokenHash tokenHash s with
      | none => []
      | some context => if context.matchedPrevious then [context.session] else []) :
      s.sessions.find r.id = some r := by
    split at mem
    · exact absurd mem List.not_mem_nil
    · rename_i context found
      split at mem
      · exact List.mem_singleton.mp mem ▸ contextThere found
      · exact absurd mem List.not_mem_nil
  cases call with
  | authenticateSession now tokenHash => exact context mem
  | renewSession now tokenHash newTokenHash => exact context mem
  | revokeSession now userId sessionId =>
    have found := Option.mem_toList.mp (List.mem_of_mem_filter mem)
    exact (Table.findSource found).2.symm ▸ found
  | requestAccountDeletion now userId =>
    simp only [Call.revokes] at mem
    split at mem
    · exact absurd mem List.not_mem_nil
    · split at mem
      · exact absurd mem List.not_mem_nil
      · exact Table.findMember (List.mem_of_mem_filter mem)

theorem sparesSource (n : Nat) (call : Call) (s : Store) :
    SparesRevoked call s ↔ ∀ known : SessionId × Instant × Option SessionRevokedReason,
      revocation known.1 s = some known.2 → revocation known.1 (alone apply (start call n) s).2 = some known.2 := by
  have revokes := callRevokes call n s
  constructor
  · rintro spares ⟨id,ended⟩ before
    by_cases listed : ∃ r ∈ call.revokes s, r.id = id
    · obtain ⟨r,mem,rfl⟩ := listed
      obtain ⟨x,found,revokedAt,reason⟩ := revocationSource.mp before
      cases Option.some.inj (found.symm.trans (revokesThere mem))
      obtain ⟨same,same'⟩ := spares r mem (by simp [revokedAt])
      refine (revokes.ended r mem).trans (congrArg some (Prod.ext ?_ ?_))
      · exact Option.some.inj (same.symm.trans revokedAt)
      · exact same'.symm.trans reason
    · exact (revokes.others id (fun r mem same => listed ⟨r,mem,same⟩)).trans before
  · intro stays r mem dead
    obtain ⟨revokedAt,is⟩ := Option.ne_none_iff_exists'.mp dead
    have before : revocation r.id s = some (revokedAt,r.revokedReason) :=
      revocationSource.mpr ⟨r,revokesThere mem,is,rfl⟩
    obtain ⟨rfl,reason⟩ := Prod.mk.inj (Option.some.inj ((revokes.ended r mem).symm.trans (stays ⟨r.id,_⟩ before)))
    exact ⟨is,reason.symm⟩

/- A revocation, once written, stays as it is, and a sweep deletes the session from the end of
the retention on. -/
def RevokedOnce (s : Store) (calls : List Call) : Prop :=
  ∀ before mid after, calls = before ++ (mid ++ after) → ∀ id revokedAt reason,
    revocation id (serial commands 0 s before).2 = some (revokedAt,reason) →
      revocation id (serial commands 0 s (before ++ mid)).2 = some (revokedAt,reason) ∧
      ∀ now, revokedAt + sessionRetentionMs < now →
        (runEraseStaleSessionsSweep now (serial commands 0 s (before ++ mid)).2).2.sessions.find id = none

/-- In a serial run every revocation is the first, exactly where no call revokes a session
that is dead already. -/
theorem revokedOnce (s : Store) (calls : List Call) :
    RevokedOnce s calls ↔ SerialWithin commands SparesRevoked 0 s calls := by
  rw [← serialStays (fun n call t => sparesSource n call t) 0 s calls]
  constructor
  · rintro once before mid after split ⟨id,revokedAt,reason⟩ found
    exact (once before mid after split id revokedAt reason found).1
  · intro stays before mid after split id revokedAt reason found
    have kept := stays before mid after split (id,revokedAt,reason) found
    exact ⟨kept,fun now late => staleGone kept late⟩

def revokedThenDeleted : List Call := [.revokeSession 2 1 0,.requestAccountDeletion 5 1]

theorem revokedTwice : ¬ RevokedOnce signedIn revokedThenDeleted := by
  intro once
  have first : revocation 0 (serial commands 0 signedIn [.revokeSession 2 1 0]).2 = some (2,some .userRevoked) := by
    decide +kernel
  have last : revocation 0 (serial commands 0 signedIn revokedThenDeleted).2 = some (5,some .accountDeleted) := by
    decide +kernel
  have kept := (once [.revokeSession 2 1 0] [.requestAccountDeletion 5 1] [] rfl 0 2 _ first).1
  rw [show ([.revokeSession 2 1 0] ++ [.requestAccountDeletion 5 1] : List Call) = revokedThenDeleted from rfl,last] at kept
  cases kept

/- The users with the column `updated_at`, which is set at every save, to the time of the
save. -/
structure Stamped where
  store : Store
  updatedAt : UserId → Option Instant

namespace Stamped

def write (saved : Instant) (w : Statement) (x : Stamped) : Option Stamped :=
  (apply w x.store).map fun next => ⟨next,match w with
    | .saveUser u => Function.update x.updatedAt u.id (some saved)
    | .saveSession _ | .append _ => x.updatedAt⟩

def row (x : Stamped) (userId : UserId) : Option (User × Option Instant) :=
  (x.store.users.find userId).map (·,x.updatedAt userId)

def requestAccountDeletion (now saved : Instant) (userId : UserId) (x : Stamped) : Option Reply × Stamped :=
  alone (write saved) ((Identity.requestAccountDeletion now userId).over store) x

theorem writeStore (saved : Instant) (w : Statement) (x : Stamped) : (write saved w x).map store = apply w x.store := by
  unfold write
  cases apply w x.store <;> rfl

theorem stampedOnce {saved : Instant} {u : User} {rest : List Statement} {x y : Stamped}
    (others : ∀ w ∈ rest, ∀ v, w ≠ .saveUser v) (applied : applyAll (write saved) (.saveUser u :: rest) x = some y) :
    y.updatedAt = Function.update x.updatedAt u.id (some saved) := by
  obtain ⟨next,first,applied⟩ := Interleaving.applyAllCons applied
  have begun : next.updatedAt = Function.update x.updatedAt u.id (some saved) := by
    obtain ⟨_,-,rfl⟩ := Option.map_eq_some_iff.mp first
    rfl
  have each : ∀ w ∈ rest, ∀ a b, a.updatedAt = next.updatedAt → write saved w a = some b →
      b.updatedAt = next.updatedAt := by
    intro w mem a b same step
    obtain ⟨_,-,rfl⟩ := Option.map_eq_some_iff.mp step
    cases w with
    | saveUser v => exact absurd rfl (others _ mem v)
    | saveSession r => exact same
    | append userId => exact same
  exact (applyAllKeeps each rfl applied).trans begun

theorem deletionStamped {userId : UserId} {user requested : User} {x : Stamped} {now saved : Instant}
    (found : x.store.users.find userId = some user) (ok : user.requestDeletion now = .ok requested) :
    ∃ y, requestAccountDeletion now saved userId x = (some .done,y) ∧
      y.store.users = upsertUser x.store.users requested ∧ y.store.outbox = x.store.outbox ++ [userId] ∧
      y.updatedAt = Function.update x.updatedAt userId (some saved) := by
  obtain ⟨t,applied,replied,users,outbox,-⟩ := deletionAlone found ok
  have lifted := applyAllOver (writeStore saved) (.saveUser requested :: ((listByUserId user.id x.store).map
    (fun session => .saveSession (session.revoke .accountDeleted now)) ++ [.append user.id])) x
  rw [applied] at lifted
  obtain ⟨y,applied',rfl⟩ := Option.map_eq_some_iff.mp lifted
  have others : ∀ w ∈ (listByUserId user.id x.store).map
      (fun session => Statement.saveSession (session.revoke .accountDeleted now)) ++ [.append user.id],
      ∀ v, w ≠ .saveUser v := by
    intro w mem v
    rcases List.mem_append.mp mem with saves | appends
    · obtain ⟨r,-,rfl⟩ := List.mem_map.mp saves
      exact Statement.noConfusion
    · rw [List.mem_singleton.mp appends]
      exact Statement.noConfusion
  refine ⟨y,?_,users,outbox,?_⟩
  · simp only [requestAccountDeletion,Identity.requestAccountDeletion,Interleaving.Steps.over,alone,found,ok,save,
      applied']
  · rw [stampedOnce others applied',(requestedSource ok).1,(Table.findSource found).2]

theorem deletionLeaves {userId : UserId} {x y : Stamped} {now saved : Instant}
    (first : requestAccountDeletion now saved userId x = (some .done,y)) :
    ∃ user, y.store.users.find userId = some user ∧ user.status = .deletionRequested := by
  cases found : x.store.users.find userId with
  | none => simp [requestAccountDeletion,Identity.requestAccountDeletion,Interleaving.Steps.over,alone,found,fail] at first
  | some user =>
    cases ok : user.requestDeletion now with
    | error e =>
      simp [requestAccountDeletion,Identity.requestAccountDeletion,Interleaving.Steps.over,alone,found,ok,fail] at first
    | ok requested =>
      obtain ⟨z,replied,users,-,-⟩ := @deletionStamped _ _ _ x now saved found ok
      cases replied.symm.trans first
      obtain ⟨id,-,-,status,-⟩ := requestedSource ok
      have own := (Table.findSource found).2
      rw [users,upsertUser,Table.findUpsert,if_pos (own.symm.trans id.symm),found]
      exact ⟨_,rfl,status⟩

end Stamped

/- The request succeeds, and the user and the events are as the one before has left them. -/
def LeavesAsIs (userId : UserId) (before : Stamped) (done : Option Reply × Stamped) : Prop :=
  done.1 = some .done ∧ done.2.row userId = before.row userId ∧ done.2.store.outbox = before.store.outbox

instance (userId before done) : Decidable (LeavesAsIs userId before done) := by unfold LeavesAsIs; infer_instance

/-- A repeated deletion succeeds and leaves every user as it was, except for the time of its
last save; but it is published once more. -/
theorem deletionRepeated {x y : Stamped} {userId : UserId} {now saved : Instant}
    (first : Stamped.requestAccountDeletion now saved userId x = (some .done,y)) (later savedLater : Instant) :
    let last := Stamped.requestAccountDeletion later savedLater userId y
    (last.1 = some .done ∧ (∀ id, last.2.store.users.find id = y.store.users.find id) ∧
      last.2.updatedAt = Function.update y.updatedAt userId (some savedLater) ∧
      last.2.store.outbox = y.store.outbox ++ [userId]) ∧ ¬ LeavesAsIs userId y last := by
  intro last
  obtain ⟨user,found,status⟩ := Stamped.deletionLeaves first
  have again : user.requestDeletion later = .ok user := if_pos status
  obtain ⟨z,replied,users,outbox,updatedAt⟩ := @Stamped.deletionStamped _ _ _ y later savedLater found again
  have is : last = (some .done,z) := replied
  rw [is]
  refine ⟨⟨rfl,fun id => ?_,updatedAt,outbox⟩,fun same => ?_⟩
  · show z.store.users.find id = y.store.users.find id
    rw [users,upsertUser,Table.findUpsert]
    split
    · rename_i own
      rw [own,(Table.findSource found).2,found]
      rfl
    · rfl
  · have published : z.store.outbox = y.store.outbox := same.2.2
    rw [outbox] at published
    exact absurd published (by simp)

def annStamped : Stamped := ⟨signedIn,fun id => if id = 1 then some 0 else none⟩

theorem annRepeats :
    let first := Stamped.requestAccountDeletion 5 6 1 annStamped
    let last := Stamped.requestAccountDeletion 9 10 1 first.2
    (last.1 = some .done ∧ (∀ id, last.2.store.users.find id = first.2.store.users.find id) ∧
      last.2.updatedAt = Function.update first.2.updatedAt 1 (some 10) ∧
      last.2.store.outbox = first.2.store.outbox ++ [1]) ∧ ¬ LeavesAsIs 1 first.2 last := by
  intro first
  have done : first.1 = some .done := by decide +kernel
  exact deletionRepeated (Prod.ext done rfl) 9 10

theorem annPublishedTwice :
    ¬ ∀ (x y : Stamped) (userId : UserId) (now saved later savedLater : Instant),
      Stamped.requestAccountDeletion now saved userId x = (some .done,y) →
        LeavesAsIs userId y (Stamped.requestAccountDeletion later savedLater userId y) := by
  intro all
  have done : (Stamped.requestAccountDeletion 5 6 1 annStamped).1 = some .done := by decide +kernel
  have same := all annStamped _ 1 5 6 9 10 (Prod.ext done rfl)
  exact absurd same (by decide +kernel)

end FamilyPlatform.Identity
