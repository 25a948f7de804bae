import FamilyPlatform.Lib.Serial
import FamilyPlatform.Membership.Invitations

/-! What a member may do, and what the family queries read. Roles are coarse; the code
asks for capabilities. Every access to a child's record is written to the audit log. -/
namespace FamilyPlatform.Membership
open Interleaving (Steps)

inductive Capability where
  | familyRead | familyManage | familyDelete
  | membersRead | membersAdd | membersManage
  | guardianshipManage | billingManage
  | documentsRead | documentsWrite | documentsWriteSensitive
  | calendarRead | calendarWrite
  | tasksRead | tasksWrite
  deriving DecidableEq, Repr

def Capability.text : Capability → String
  | .familyRead => "family:read"
  | .familyManage => "family:manage"
  | .familyDelete => "family:delete"
  | .membersRead => "members:read"
  | .membersAdd => "members:add"
  | .membersManage => "members:manage"
  | .guardianshipManage => "guardianship:manage"
  | .billingManage => "billing:manage"
  | .documentsRead => "documents:read"
  | .documentsWrite => "documents:write"
  | .documentsWriteSensitive => "documents:write:sensitive"
  | .calendarRead => "calendar:read"
  | .calendarWrite => "calendar:write"
  | .tasksRead => "tasks:read"
  | .tasksWrite => "tasks:write"

def capabilitiesFor : MemberRole → List Capability
  | .owner => [.familyRead,.familyManage,.familyDelete,.membersRead,.membersAdd,.membersManage,.guardianshipManage,
      .billingManage,.documentsRead,.documentsWrite,.documentsWriteSensitive,.calendarRead,.calendarWrite,.tasksRead,
      .tasksWrite]
  | .adult => [.familyRead,.familyManage,.membersRead,.membersAdd,.documentsRead,.documentsWrite,
      .documentsWriteSensitive,.calendarRead,.calendarWrite,.tasksRead,.tasksWrite]
  | .extended => [.familyRead,.membersRead,.documentsRead,.documentsWrite,.calendarRead,.calendarWrite,.tasksRead,
      .tasksWrite]
  | .viewer => [.familyRead,.membersRead,.documentsRead,.calendarRead,.tasksRead]

structure FamilyContext where
  memberId : FamilyMemberId
  role : MemberRole
  capabilities : List Capability
  deriving DecidableEq, Repr

/- A family whose deletion has been requested has no members any more. -/
def resolveFamilyContext (userId : UserId) (familyId : FamilyId) : Steps Store Statement (Option FamilyContext) :=
  .read fun s =>
  match findCurrent familyId s with
  | none => .returned none
  | some family =>
    if family.deletionRequestedAt.isSome then .returned none else
    .read fun s =>
    match findStandingByUserId familyId userId s with
    | none => .returned none
    | some standing => .returned (some ⟨standing.id,standing.role,capabilitiesFor standing.role⟩)

inductive AuditResult where
  | granted | denied
  deriving DecidableEq, Repr

structure AuditEntry where
  actorUserId : Option UserId
  actorMemberId : Option FamilyMemberId
  familyId : FamilyId
  subjectType : String
  subjectId : Nat
  action : String
  purpose : String
  result : AuditResult
  reason : Option String
  correlationId : Nat
  deriving DecidableEq, Repr

/- The family tables and the audit log, to which rows are only ever appended. -/
structure Records where
  store : Store
  audit : List AuditEntry

inductive RecordStatement where
  | save (statement : Statement)
  | audit (entry : AuditEntry)
  deriving DecidableEq, Repr

def applyRecord : RecordStatement → Records → Option Records
  | .save w, r => do
    let store ← apply w r.store
    some { r with store }
  | .audit entry, r => some { r with audit := r.audit ++ [entry] }

abbrev Recorded (Outcome : Type) := Steps Records RecordStatement Outcome

def inRecords {Outcome : Type} (l : Steps Store Statement Outcome) : Recorded Outcome :=
  (l.over Records.store).lift .save

def getFamily (familyId : FamilyId) : Recorded (Option Family) :=
  .read fun r => .returned (findCurrent familyId r.store)

def Family.rename (f : Family) (raw : String) : Result Family :=
  match Family.create f.id raw with
  | .error e => .error e
  | .ok created => .ok { f with name := created.name }

/- The whole row is saved, the request for deletion that was read included. -/
def updateFamily (familyId : FamilyId) (name : Option String) : Recorded (Result Family) :=
  .read fun r =>
  match findCurrent familyId r.store with
  | none => .returned (.error .notFound)
  | some aggregate =>
    match name with
    | none => .commit [.save (.saveFamily familyId aggregate)] fun _ => .returned (.ok aggregate)
    | some raw =>
      match aggregate.rename raw with
      | .error e => .returned (.error e)
      | .ok renamed => .commit [.save (.saveFamily familyId renamed)] fun _ => .returned (.ok renamed)

/- `none` leaves the key out on the wire; a date that is not on file is `some none`. -/
structure MemberSummary where
  id : FamilyMemberId
  kind : MemberKind
  role : MemberRole
  displayName : Option String
  dateOfBirth : Option (Option Instant)
  deriving DecidableEq, Repr

def summarise (guarded : List FamilyMemberId) (m : FamilyMember) : MemberSummary :=
  { id := m.id, kind := m.kind, role := m.role, displayName := m.displayName,
    dateOfBirth := if m.kind ≠ .child || m.id ∈ guarded then some m.dateOfBirth else none }

def listMembers (familyId : FamilyId) (callerMemberId : FamilyMemberId) : Recorded (List MemberSummary) :=
  .read fun r =>
  let members := listActive familyId r.store
  .read fun r => .returned (members.map (summarise (listActiveChildIdsGuardedBy familyId callerMemberId r.store)))

structure MemberDetail where
  id : FamilyMemberId
  kind : MemberKind
  role : MemberRole
  displayName : Option String
  dateOfBirth : Option Instant
  deriving DecidableEq, Repr

def FamilyMember.detail (m : FamilyMember) : MemberDetail :=
  { id := m.id, kind := m.kind, role := m.role, displayName := m.displayName, dateOfBirth := m.dateOfBirth }

def childRead (familyId : FamilyId) (memberId callerMemberId : FamilyMemberId) (callerUserId : Option UserId)
    (correlationId : Nat) (granted : Bool) : AuditEntry where
  actorUserId := callerUserId
  actorMemberId := some callerMemberId
  familyId := familyId
  subjectType := "family_member"
  subjectId := memberId
  action := "child_record.read"
  purpose := "member detail view"
  result := if granted then .granted else .denied
  reason := if granted then none else some "caller holds no active guardianship for this child (FR-007)"
  correlationId := correlationId

/- The audit row commits with the reads that decided it. -/
def readMember (familyId : FamilyId) (memberId callerMemberId : FamilyMemberId) (callerUserId : Option UserId)
    (correlationId : Nat) : Recorded (Result MemberDetail) :=
  .read fun r =>
  match findById familyId memberId r.store with
  | none => .returned (.error .notFound)
  | some member =>
    if !member.isActive then .returned (.error .notFound)
    else if member.kind = .child then
      .read fun r =>
      let granted := (findActive familyId callerMemberId member.id r.store).isSome
      .commit [.audit (childRead familyId member.id callerMemberId callerUserId correlationId granted)] fun _ =>
      .returned (if !granted then .error .guardianshipRequired else .ok member.detail)
    else .returned (.ok member.detail)

structure InvitationSummary where
  id : InvitationId
  email : String
  proposedRole : MemberRole
  status : InvitationStatus
  expiresAt : Instant
  deriving DecidableEq, Repr

def Invitation.toSummary (i : Invitation) : InvitationSummary :=
  { id := i.id, email := i.email.value, proposedRole := i.proposedRole, status := i.status, expiresAt := i.expiresAt }

def listInvitations (familyId : FamilyId) : Recorded (List InvitationSummary) :=
  .read fun r => .returned ((listAll familyId r.store).map Invitation.toSummary)

structure FamilyMembershipSummary where
  familyId : FamilyId
  name : String
  role : MemberRole
  deriving DecidableEq, Repr

/- The one read across families. The policies show a caller the own rows, and of the families
those that stand behind them. -/
def listMembershipsFor (userId : UserId) (s : Store) : List FamilyMembershipSummary :=
  (s.members.rows.filter (fun m => m.userId = some userId && m.isActive)).filterMap (fun m =>
    ((s.families.find m.familyId).filter (·.deletionRequestedAt.isNone)).map (fun f => ⟨f.id,f.name,m.role⟩))

structure FamilyListEntry where
  familyId : FamilyId
  name : String
  role : MemberRole
  capabilities : List Capability
  deriving DecidableEq, Repr

def listFamilies (userId : UserId) : Recorded (List FamilyListEntry) :=
  .read fun r => .returned ((listMembershipsFor userId r.store).map (fun membership =>
    ⟨membership.familyId,membership.name,membership.role,capabilitiesFor membership.role⟩))

end FamilyPlatform.Membership
