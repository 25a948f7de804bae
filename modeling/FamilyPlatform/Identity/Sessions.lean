import FamilyPlatform.Lib.Table
import FamilyPlatform.Lib.Interleaving
import FamilyPlatform.Kernel.Values

/-! Sessions and the accounts that own them. A session keeps its identifier while its
token is rotated; each command reads whole rows and saves whole rows. Tokens are named
by their hashes. -/
namespace FamilyPlatform.Identity
open Interleaving (Steps System)

abbrev UserId := Nat
abbrev SessionId := Nat
abbrev DeviceId := Nat

inductive UserStatus where
  | pendingVerification | active | deletionRequested
  deriving DecidableEq, Repr

structure User where
  id : UserId
  email : EmailAddress
  passwordHash : String
  status : UserStatus
  emailVerifiedAt : Option Instant
  deletionRequestedAt : Option Instant
  failedAttemptCount : Nat
  throttledUntil : Option Instant
  createdAt : Instant
  deriving DecidableEq, Repr

/- A repeated request does not push the retention clock back out. -/
def User.requestDeletion (u : User) (now : Instant) : Result User :=
  if u.status = .deletionRequested then .ok u
  else if u.status ≠ .active then .error .notFound
  else .ok { u with status := .deletionRequested, deletionRequestedAt := some now }

inductive SessionRevokedReason where
  | userRevoked | accountDeleted | replayDetected
  deriving DecidableEq, Repr

structure Session where
  id : SessionId
  userId : UserId
  deviceId : DeviceId
  tokenHash : String
  previousTokenHash : Option String
  issuedAt : Instant
  rotatedAt : Option Instant
  absoluteExpiresAt : Instant
  revokedAt : Option Instant
  revokedReason : Option SessionRevokedReason
  deriving DecidableEq, Repr

namespace Session

def isUsable (s : Session) (now : Instant) : Bool := s.revokedAt.isNone && now < s.absoluteExpiresAt

def rotate (s : Session) (newTokenHash : String) (now : Instant) : Result Session :=
  if !s.isUsable now then .error .sessionInvalid
  else .ok { s with previousTokenHash := some s.tokenHash, tokenHash := newTokenHash,
                    rotatedAt := some now }

def revoke (s : Session) (reason : SessionRevokedReason) (now : Instant) : Session :=
  { s with revokedAt := some now, revokedReason := some reason }

theorem rotateSource {s rotated : Session} {newTokenHash now}
    (ok : s.rotate newTokenHash now = .ok rotated) : s.revokedAt = none ∧ rotated.id = s.id := by
  simp only [rotate] at ok
  split at ok
  · cases ok
  · rename_i usable
    cases ok
    simp only [isUsable,Bool.not_eq_true',Bool.not_eq_false,Bool.and_eq_true] at usable
    exact ⟨Option.isNone_iff_eq_none.mp usable.1,rfl⟩

theorem revokedUnusable {s : Session} {now} (revoked : s.revokedAt ≠ none) : s.isUsable now = false := by
  simp [isUsable,revoked]

end Session

structure Tables where
  users : Table User User.id
  sessions : Table Session Session.id
  outbox : List UserId
  deriving DecidableEq

def UserEmailKey (rows : List User) : Prop := ∀ a ∈ rows, ∀ b ∈ rows, a.email = b.email → a.id = b.id

def SessionTokenHashKey (rows : List Session) : Prop :=
  ∀ a ∈ rows, ∀ b ∈ rows, a.tokenHash = b.tokenHash → a.id = b.id

instance (rows) : Decidable (UserEmailKey rows) := by unfold UserEmailKey; infer_instance
instance (rows) : Decidable (SessionTokenHashKey rows) := by unfold SessionTokenHashKey; infer_instance

def Legal (t : Tables) : Prop :=
  UserEmailKey t.users.rows ∧ SessionTokenHashKey t.sessions.rows ∧
    ∀ s ∈ t.sessions.rows, (t.users.find s.userId).isSome

instance (t) : Decidable (Legal t) := by unfold Legal; infer_instance

structure Store extends Tables where
  legal : Legal toTables

/- `UserDeletionRequested` is the only event of these commands. -/
inductive Statement where
  | saveUser (row : User)
  | saveSession (row : Session)
  | append (userId : UserId)
  deriving DecidableEq, Repr

/- An update leaves the creation and issue times alone. -/
def upsertUser (t : Table User User.id) (u : User) : Table User User.id :=
  t.upsert u (fun r => { u with id := r.id, createdAt := r.createdAt }) (fun _ => rfl)

def upsertSession (t : Table Session Session.id) (s : Session) : Table Session Session.id :=
  t.upsert s (fun r => { s with id := r.id, issuedAt := r.issuedAt }) (fun _ => rfl)

def write : Statement → Tables → Tables
  | .saveUser u, t => { t with users := upsertUser t.users u }
  | .saveSession s, t => { t with sessions := upsertSession t.sessions s }
  | .append userId, t => { t with outbox := t.outbox ++ [userId] }

def apply (w : Statement) (s : Store) : Option Store :=
  if legal : Legal (write w s.toTables) then some ⟨write w s.toTables,legal⟩ else none

theorem applySource {w : Statement} {s t : Store} (applied : apply w s = some t) :
    t.toTables = write w s.toTables := by
  unfold apply at applied
  split at applied
  · rw [← Option.some.inj applied]
  · cases applied

structure SessionAuthContext where
  session : Session
  userStatus : UserStatus
  matchedPrevious : Bool
  deriving DecidableEq, Repr

def findAuthContextByTokenHash (hash : String) (s : Store) : Option SessionAuthContext := do
  let row ← s.sessions.rows.find? (fun r => r.tokenHash = hash || r.previousTokenHash = some hash)
  let user ← s.users.find row.userId
  some ⟨row,user.status,row.tokenHash ≠ hash⟩

def findById (id : SessionId) (s : Store) : Option Session := s.sessions.find id

def listByUserId (userId : UserId) (s : Store) : List Session :=
  s.sessions.rows.filter (fun r => r.userId = userId)

theorem findAuthContextSource {hash s context}
    (found : findAuthContextByTokenHash hash s = some context) : context.session ∈ s.sessions.rows := by
  simp only [findAuthContextByTokenHash,bind,Option.bind_eq_some_iff] at found
  obtain ⟨row,read,user,-,last⟩ := found
  rw [← Option.some.inj last]
  exact List.mem_of_find?_eq_some read

inductive Reply where
  | failed (error : DomainError)
  | authenticated (userId : UserId) (sessionId : SessionId)
  | issued (sessionId : SessionId) (tokenHash : String)
  | renewed (sessionId : SessionId) (tokenHash : String)
  | done
  deriving DecidableEq, Repr

abbrev Script := Steps Store Statement Reply

def fail (e : DomainError) : Script := .returned (.failed e)

def save (batch : List Statement) (reply : Reply) : Script := .commit batch (fun _ => .returned reply)

/- A superseded credential revokes the whole session, on whichever route it turns up. -/
def replayDetected (context : SessionAuthContext) (now : Instant) : Script :=
  save [.saveSession (context.session.revoke .replayDetected now)]
    (.failed (.sessionReplayDetected context.session.id))

def authenticateSession (now : Instant) (tokenHash : String) : Script :=
  .read fun s =>
  match findAuthContextByTokenHash tokenHash s with
  | none => fail .sessionInvalid
  | some context =>
    if context.matchedPrevious then replayDetected context now
    else if !context.session.isUsable now || context.userStatus ≠ .active then fail .sessionInvalid
    else .returned (.authenticated context.session.userId context.session.id)

def renewSession (now : Instant) (tokenHash newTokenHash : String) : Script :=
  .read fun s =>
  match findAuthContextByTokenHash tokenHash s with
  | none => fail .sessionInvalid
  | some context =>
    if context.matchedPrevious then replayDetected context now
    else
      match context.session.rotate newTokenHash now with
      | .error e => fail e
      | .ok rotated => save [.saveSession rotated] (.renewed rotated.id newTokenHash)

def revokeSession (now : Instant) (userId : UserId) (sessionId : SessionId) : Script :=
  .read fun s =>
  match findById sessionId s with
  | none => fail .notFound
  | some session =>
    if session.userId ≠ userId then fail .notFound
    else save [.saveSession (session.revoke .userRevoked now)] .done

def requestAccountDeletion (now : Instant) (userId : UserId) : Script :=
  .read fun s =>
  match s.users.find userId with
  | none => fail .notFound
  | some user =>
    match user.requestDeletion now with
    | .error e => fail e
    | .ok requested => .read fun s =>
      save (.saveUser requested ::
        ((listByUserId user.id s).map (fun session => .saveSession (session.revoke .accountDeleted now)) ++
          [.append user.id])) .done

inductive Call where
  | authenticateSession (now : Instant) (tokenHash : String)
  | renewSession (now : Instant) (tokenHash newTokenHash : String)
  | revokeSession (now : Instant) (userId : UserId) (sessionId : SessionId)
  | requestAccountDeletion (now : Instant) (userId : UserId)
  deriving DecidableEq, Repr

def start : Call → Nat → Script
  | .authenticateSession now tokenHash,_ => authenticateSession now tokenHash
  | .renewSession now tokenHash newTokenHash,_ => renewSession now tokenHash newTokenHash
  | .revokeSession now userId sessionId,_ => revokeSession now userId sessionId
  | .requestAccountDeletion now userId,_ => requestAccountDeletion now userId

def commands : System Store Statement Call Reply := ⟨apply,start⟩

end FamilyPlatform.Identity
