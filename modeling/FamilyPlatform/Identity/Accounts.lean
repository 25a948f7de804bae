import FamilyPlatform.Lib.LateLock
import FamilyPlatform.Identity.Sessions

/-! Signing in, verifying an address and deleting the account. Each is a transaction that
reads the user without a lock and saves the whole row; the save locks the row, and what
the transaction lists or writes after it, it does under that lock. -/
namespace FamilyPlatform.Identity

/- Locked on crossing the threshold, and again by every attempt after it. -/
def User.recordFailedAttempt (u : User) (now : Instant) (maxAttempts : Nat) (lockoutMs : Int) : User :=
  let failedAttemptCount := u.failedAttemptCount + 1
  { u with failedAttemptCount := failedAttemptCount,
           throttledUntil := if failedAttemptCount ≥ maxAttempts then some (now + lockoutMs) else u.throttledUntil }

def User.clearFailedAttempts (u : User) : User :=
  if u.failedAttemptCount = 0 ∧ u.throttledUntil = none then u
  else { u with failedAttemptCount := 0, throttledUntil := none }

def User.verify (u : User) (now : Instant) : Result User :=
  if u.status ≠ .pendingVerification then .error .verificationInvalid
  else .ok { u with status := .active, emailVerifiedAt := some now }

def Session.issue (id : SessionId) (userId : UserId) (deviceId : DeviceId) (tokenHash : String) (now : Instant)
    (absoluteLifetimeMs : Int) : Session :=
  { id := id, userId := userId, deviceId := deviceId, tokenHash := tokenHash, previousTokenHash := none, issuedAt := now,
    rotatedAt := none, absoluteExpiresAt := now + absoluteLifetimeMs, revokedAt := none, revokedReason := none }

abbrev VerificationId := Nat

structure EmailVerification where
  id : VerificationId
  userId : UserId
  tokenHash : String
  expiresAt : Instant
  consumedAt : Option Instant
  supersededAt : Option Instant
  deriving DecidableEq, Repr

def EmailVerification.isUsable (v : EmailVerification) (now : Instant) : Bool :=
  v.consumedAt.isNone && v.supersededAt.isNone && now < v.expiresAt

def EmailVerification.consume (v : EmailVerification) (now : Instant) : Result EmailVerification :=
  if !v.isUsable now then .error .verificationInvalid else .ok { v with consumedAt := some now }

end FamilyPlatform.Identity

namespace FamilyPlatform.Accounts
open Identity (User UserId Session SessionId DeviceId EmailVerification VerificationId UserEmailKey
  SessionTokenHashKey upsertUser upsertSession)
open Interleaving (applyAll)
open LateLock (Reading System)

inductive Event where
  | userAuthenticated (userId : UserId) (sessionId : SessionId)
  | userDeletionRequested (userId : UserId)
  deriving DecidableEq, Repr

/- Session identifiers below `issued` have been given out. -/
structure Tables where
  users : Table User User.id
  sessions : Table Session Session.id
  verifications : Table EmailVerification EmailVerification.id
  outbox : List Event
  issued : SessionId
  deriving DecidableEq

def VerificationTokenHashKey (rows : List EmailVerification) : Prop :=
  ∀ a ∈ rows, ∀ b ∈ rows, a.tokenHash = b.tokenHash → a.id = b.id

instance (rows) : Decidable (VerificationTokenHashKey rows) := by unfold VerificationTokenHashKey; infer_instance

def Legal (t : Tables) : Prop :=
  UserEmailKey t.users.rows ∧ SessionTokenHashKey t.sessions.rows ∧ VerificationTokenHashKey t.verifications.rows ∧
    (∀ s ∈ t.sessions.rows, (t.users.find s.userId).isSome ∧ s.id < t.issued) ∧
    ∀ v ∈ t.verifications.rows, (t.users.find v.userId).isSome

instance (t) : Decidable (Legal t) := by unfold Legal; infer_instance

structure Store extends Tables where
  legal : Legal toTables

inductive Statement where
  | saveUser (row : User)
  | saveSession (row : Session)
  | saveVerification (row : EmailVerification)
  | append (event : Event)
  deriving DecidableEq, Repr

def upsertVerification (t : Table EmailVerification EmailVerification.id) (v : EmailVerification) :
    Table EmailVerification EmailVerification.id :=
  t.upsert v (fun r => { v with id := r.id }) (fun _ => rfl)

def write : Statement → Tables → Tables
  | .saveUser u, t => { t with users := upsertUser t.users u }
  | .saveSession s, t => { t with sessions := upsertSession t.sessions s, issued := max t.issued (s.id + 1) }
  | .saveVerification v, t => { t with verifications := upsertVerification t.verifications v }
  | .append event, t => { t with outbox := t.outbox ++ [event] }

def apply (w : Statement) (s : Store) : Option Store :=
  if legal : Legal (write w s.toTables) then some ⟨write w s.toTables,legal⟩ else none

theorem applySource {w : Statement} {s t : Store} (applied : apply w s = some t) : t.toTables = write w s.toTables := by
  unfold apply at applied
  split at applied
  · rw [← Option.some.inj applied]
  · cases applied

inductive Reply where
  | failed (error : DomainError)
  | authenticated (sessionId : SessionId) (tokenHash : String) (issuedAt absoluteExpiresAt : Instant)
  | verified (userId : UserId)
  | done
  | thrown
  deriving DecidableEq, Repr

structure View where
  verification : Option EmailVerification
  user : Option User
  deriving DecidableEq, Repr

/- What it does then: answers, or saves the row of one user, and with it a batch that may
depend on that user's sessions and on the next identifier. -/
inductive Plan where
  | returns (reply : Reply)
  | saves (userId : UserId) (batch : List Session → SessionId → List Statement) (reply : SessionId → Reply)

def maxFailedAttempts : Nat := 5
def throttleLockoutMs : Int := 15 * 60 * 1000
def absoluteSessionLifetimeMs : Int := 90 * 24 * 60 * 60 * 1000

def throttledFor (user : User) (now : Instant) : Option Nat :=
  match user.throttledUntil with
  | none => none
  | some throttledUntil =>
    if throttledUntil > now then some ((throttledUntil - now + 999) / 1000).toNat else none

/- An unknown address is answered like a wrong password. -/
def authenticateUser (verify : String → String → Bool) (now : Instant) (password tokenHash : String)
    (deviceId : DeviceId) (user : Option User) : Plan :=
  match user with
  | none => .returns (.failed .invalidCredentials)
  | some user =>
    match throttledFor user now with
    | some retryAfterSeconds => .returns (.failed (.throttled retryAfterSeconds))
    | none =>
      if !verify password user.passwordHash then
        .saves user.id (fun _ _ => [.saveUser (user.recordFailedAttempt now maxFailedAttempts throttleLockoutMs)])
          (fun _ => .failed .invalidCredentials)
      else if user.status ≠ .active then .returns (.failed .accountNotVerified)
      else
        .saves user.id
          (fun _ id => [.saveUser user.clearFailedAttempts,
            .saveSession (.issue id user.id deviceId tokenHash now absoluteSessionLifetimeMs),
            .append (.userAuthenticated user.id id)])
          (fun id => .authenticated id tokenHash now (now + absoluteSessionLifetimeMs))

def verifyEmail (now : Instant) (verification : Option EmailVerification) (user : Option User) : Plan :=
  match verification with
  | none => .returns (.failed .verificationInvalid)
  | some verification =>
    match verification.consume now with
    | .error e => .returns (.failed e)
    | .ok consumed =>
      match user with
      | none => .returns (.failed .verificationInvalid)
      | some user =>
        match user.verify now with
        | .error e => .returns (.failed e)
        | .ok verified =>
          .saves user.id (fun _ _ => [.saveVerification consumed,.saveUser verified]) (fun _ => .verified user.id)

def requestAccountDeletion (now : Instant) (user : Option User) : Plan :=
  match user with
  | none => .returns (.failed .notFound)
  | some user =>
    match user.requestDeletion now with
    | .error e => .returns (.failed e)
    | .ok requested =>
      .saves user.id
        (fun sessions _ => .saveUser requested ::
          (sessions.map (fun session => .saveSession (session.revoke .accountDeleted now)) ++
            [.append (.userDeletionRequested user.id)]))
        (fun _ => .done)

inductive Request where
  | authenticateUser (now : Instant) (email : EmailAddress) (password tokenHash : String) (deviceId : DeviceId)
  | verifyEmail (now : Instant) (tokenHash : String)
  | requestAccountDeletion (now : Instant) (userId : UserId)
  deriving DecidableEq, Repr

def findByEmailAcrossAllStatuses (email : EmailAddress) (s : Store) : Option User :=
  s.users.rows.find? (fun u => u.email = email)

def findByTokenHash (tokenHash : String) (s : Store) : Option EmailVerification :=
  s.verifications.rows.find? (fun v => v.tokenHash = tokenHash)

def listByUserId (userId : UserId) (s : Store) : List Session :=
  s.sessions.rows.filter (fun r => r.userId = userId)

/- The user behind a link is looked up by a second read, once the link is known to be good. -/
def start : Request → Reading Store View
  | .authenticateUser _ email _ _ _ => .read fun s => .ready ⟨none,findByEmailAcrossAllStatuses email s⟩
  | .verifyEmail now tokenHash => .read fun s =>
    match findByTokenHash tokenHash s with
    | none => .ready ⟨none,none⟩
    | some verification =>
      match verification.consume now with
      | .error _ => .ready ⟨some verification,none⟩
      | .ok _ => .read fun s => .ready ⟨some verification,s.users.find verification.userId⟩
  | .requestAccountDeletion _ userId => .read fun s => .ready ⟨none,s.users.find userId⟩

section
variable (verify : String → String → Bool)

def plan : Request → View → Plan
  | .authenticateUser now _ password tokenHash deviceId,view =>
    authenticateUser verify now password tokenHash deviceId view.user
  | .verifyEmail now _,view => verifyEmail now view.verification view.user
  | .requestAccountDeletion now _,view => requestAccountDeletion now view.user

def Plan.key : Plan → Option UserId
  | .returns _ => none
  | .saves userId _ _ => some userId

def Plan.list (s : Store) : Plan → List Session
  | .returns _ => []
  | .saves userId _ _ => listByUserId userId s

def Plan.write (s : Store) (sessions : List Session) : Plan → Reply × Store
  | .returns reply => (reply,s)
  | .saves _ batch reply =>
    match applyAll apply (batch sessions s.issued) s with
    | some committed => (reply s.issued,committed)
    | none => (.thrown,s)

def commands : System Store Request UserId View (List Session) Reply where
  start := start
  key request view := (plan verify request view).key
  list s request view := (plan verify request view).list s
  write s request view sessions := (plan verify request view).write s sessions

end
end FamilyPlatform.Accounts
