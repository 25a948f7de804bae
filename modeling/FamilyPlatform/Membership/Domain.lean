import FamilyPlatform.Kernel.Values

/-! The aggregates of the family context. `kind` says whether a record is a child's,
`role` what the person may do; a removed member stays as a tombstone. -/
namespace FamilyPlatform.Membership

abbrev FamilyId := Nat
abbrev FamilyMemberId := Nat
abbrev GuardianshipId := Nat
abbrev InvitationId := Nat
abbrev UserId := Nat

inductive MemberRole where
  | owner | adult | extended | viewer
  deriving DecidableEq, Repr

inductive MemberKind where
  | adult | child
  deriving DecidableEq, Repr

def isEligibleGuardian (kind : MemberKind) (role : MemberRole) : Bool :=
  kind = .adult && (role = .owner || role = .adult)

structure Family where
  id : FamilyId
  name : String
  deletionRequestedAt : Option Instant
  deriving DecidableEq, Repr

def nameMaxLength : Nat := 120

def nameTooLong (length : Nat) : DomainError :=
  .nameRequired (String.join ["A family name can be at most ",toString nameMaxLength,
    " characters; this one is ",toString length,"."])

def Family.create (id : FamilyId) (raw : String) : Result Family :=
  let name := Text.trim raw
  if name = "" then
    .error (.nameRequired
      "A family needs a name. It is what everyone in it will see at the top of the app.")
  else if nameMaxLength < Text.utf16Length name then .error (nameTooLong (Text.utf16Length name))
  else .ok ⟨id,name,none⟩

/- FR-023: written once. -/
def Family.requestDeletion (f : Family) (now : Instant) : Family :=
  if f.deletionRequestedAt.isSome then f else { f with deletionRequestedAt := some now }

theorem familyCreateSource {id raw f} (created : Family.create id raw = .ok f) : f.id = id := by
  simp only [Family.create] at created
  split at created
  · cases created
  · split at created
    · cases created
    · cases created
      rfl

structure FamilyMember where
  id : FamilyMemberId
  familyId : FamilyId
  kind : MemberKind
  role : MemberRole
  userId : Option UserId
  displayName : Option String
  dateOfBirth : Option Instant
  removedAt : Option Instant
  deriving DecidableEq, Repr

namespace FamilyMember

def isActive (m : FamilyMember) : Bool := m.removedAt.isNone
def isOwner (m : FamilyMember) : Bool := m.isActive && m.role = .owner

def needsName : DomainError := .nameRequired "A member needs a name to be recognised by."

def createOwner (id : FamilyMemberId) (familyId : FamilyId) (userId : UserId) (raw : String) :
    Result FamilyMember :=
  let displayName := Text.trim raw
  if displayName = "" then .error needsName
  else .ok { id, familyId, kind := .adult, role := .owner, userId := some userId,
             displayName := some displayName, dateOfBirth := none, removedAt := none }

def createUnlinked (id : FamilyMemberId) (familyId : FamilyId) (kind : MemberKind) (raw : String)
    (dateOfBirth : Option Instant) : Result FamilyMember :=
  let displayName := Text.trim raw
  if displayName = "" then .error needsName
  else .ok { id, familyId, kind, role := if kind = .child then .viewer else .extended,
             userId := none, displayName := some displayName, dateOfBirth, removedAt := none }

def createFromInvitation (id : FamilyMemberId) (familyId : FamilyId) (userId : UserId)
    (role : MemberRole) (raw : String) : Result FamilyMember :=
  if role = .owner then
    .error (.ownerIneligible
      "Ownership is transferred to an existing member, never granted by invitation.")
  else
    let displayName := Text.trim raw
    if displayName = "" then .error needsName
    else .ok { id, familyId, kind := .adult, role, userId := some userId,
               displayName := some displayName, dateOfBirth := none, removedAt := none }

def changeRole (m : FamilyMember) (role : MemberRole) : Result FamilyMember :=
  if m.kind = .child then
    .error (.guardianIneligible "A child holds no capabilities, so there is no role to change.")
  else if role = .owner then
    .error (.ownerRequired
      (some "Ownership moves by transfer, so that a family never briefly has two owners."))
  else if m.role = .owner then .error (.ownerRequired none)
  else .ok { m with role }

def promoteToOwner (m : FamilyMember) : Result FamilyMember :=
  if m.kind ≠ .adult ∨ m.userId = none then
    .error (.ownerIneligible
      "Ownership can only go to a linked adult member — an unlinked or child record cannot be reached if something goes wrong.")
  else .ok { m with role := .owner }

def demoteFromOwnership (m : FamilyMember) : Result FamilyMember :=
  if m.role ≠ .owner then
    .error (.ownerRequired (some "Only the current owner can be demoted by a transfer."))
  else .ok { m with role := .adult }

def remove (m : FamilyMember) (now : Instant) : FamilyMember :=
  { m with displayName := none, dateOfBirth := none, userId := none, removedAt := some now }

end FamilyMember

theorem createOwnerSource {id familyId userId raw m}
    (created : FamilyMember.createOwner id familyId userId raw = .ok m) :
    m.id = id ∧ m.familyId = familyId ∧ m.isOwner := by
  simp only [FamilyMember.createOwner] at created
  split at created <;> try contradiction
  cases created
  exact ⟨rfl,rfl,rfl⟩

theorem createUnlinkedSource {id familyId kind raw birth m}
    (created : FamilyMember.createUnlinked id familyId kind raw birth = .ok m) :
    m.id = id ∧ m.kind = kind ∧ m.role ≠ .owner := by
  simp only [FamilyMember.createUnlinked] at created
  split at created <;> try contradiction
  cases created
  refine ⟨rfl,rfl,?_⟩
  cases kind <;> simp

theorem createFromInvitationSource {id familyId userId role raw m}
    (created : FamilyMember.createFromInvitation id familyId userId role raw = .ok m) :
    m.id = id ∧ m.kind = .adult ∧ m.role ≠ .owner := by
  simp only [FamilyMember.createFromInvitation] at created
  split at created <;> try contradiction
  rename_i role
  split at created <;> try contradiction
  cases created
  exact ⟨rfl,rfl,role⟩

theorem changeRoleSource {m changed : FamilyMember} {role} (ok : m.changeRole role = .ok changed) :
    changed = { m with role } ∧ m.kind ≠ .child ∧ role ≠ .owner ∧ m.role ≠ .owner := by
  simp only [FamilyMember.changeRole] at ok
  split at ok <;> try contradiction
  rename_i kind
  split at ok <;> try contradiction
  rename_i target
  split at ok <;> try contradiction
  rename_i source
  cases ok
  exact ⟨rfl,kind,target,source⟩

theorem promoteSource {m promoted : FamilyMember} (ok : m.promoteToOwner = .ok promoted) :
    promoted = { m with role := .owner } ∧ m.kind = .adult := by
  simp only [FamilyMember.promoteToOwner] at ok
  split at ok <;> try contradiction
  rename_i eligible
  cases ok
  exact ⟨rfl,by_contra fun kind => eligible (.inl kind)⟩

theorem demoteSource {m demoted : FamilyMember} (ok : m.demoteFromOwnership = .ok demoted) :
    demoted = { m with role := .adult } ∧ m.role = .owner := by
  simp only [FamilyMember.demoteFromOwnership] at ok
  split at ok <;> try contradiction
  rename_i owner
  cases ok
  exact ⟨rfl,not_not.mp owner⟩

theorem removeSource (m : FamilyMember) (now : Instant) : (m.remove now).isActive = false := rfl

structure Guardianship where
  id : GuardianshipId
  familyId : FamilyId
  guardianMemberId : FamilyMemberId
  childMemberId : FamilyMemberId
  endedAt : Option Instant
  deriving DecidableEq, Repr

namespace Guardianship

def isActive (g : Guardianship) : Bool := g.endedAt.isNone

def establish (id : GuardianshipId) (familyId : FamilyId) (guardian : FamilyMember)
    (childMemberId : FamilyMemberId) (childKind : MemberKind) : Result Guardianship :=
  if childKind ≠ .child then
    .error (.guardianIneligible "Guardianship only applies to a member marked as a child.")
  else if !isEligibleGuardian guardian.kind guardian.role then
    .error (.guardianIneligible
      "Only an adult member holding the owner or adult role may be a guardian (FR-006).")
  else .ok ⟨id,familyId,guardian.id,childMemberId,none⟩

/- `end` is a word of Lean. -/
def finish (g : Guardianship) (now : Instant) : Guardianship := { g with endedAt := some now }

end Guardianship

theorem establishSource {id familyId guardian child kind g}
    (established : Guardianship.establish id familyId guardian child kind = .ok g) :
    g.id = id ∧ g.childMemberId = child ∧ g.isActive := by
  simp only [Guardianship.establish] at established
  split at established <;> try contradiction
  split at established <;> try contradiction
  cases established
  exact ⟨rfl,rfl,rfl⟩

def assertGuardianCoverage (activeGuardianCountAfterAction : Int) : Result Unit :=
  if activeGuardianCountAfterAction < 1 then .error .lastGuardian else .ok ()

inductive InvitationStatus where
  | pending | accepted | revoked | expired
  deriving DecidableEq, Repr

structure Invitation where
  id : InvitationId
  familyId : FamilyId
  email : EmailAddress
  proposedRole : MemberRole
  tokenHash : String
  status : InvitationStatus
  expiresAt : Instant
  invitedByMemberId : FamilyMemberId
  acceptedByMemberId : Option FamilyMemberId
  acceptedAt : Option Instant
  revokedAt : Option Instant
  deriving DecidableEq, Repr

namespace Invitation

def create (id : InvitationId) (familyId : FamilyId) (email : EmailAddress)
    (proposedRole : MemberRole) (tokenHash : String) (invitedByMemberId : FamilyMemberId)
    (now ttlMs : Instant) : Result Invitation :=
  if proposedRole = .owner then
    .error (.ownerIneligible
      "Ownership is transferred to an existing member, never granted by invitation.")
  else .ok { id, familyId, email, proposedRole, tokenHash, status := .pending,
             expiresAt := now + ttlMs, invitedByMemberId, acceptedByMemberId := none,
             acceptedAt := none, revokedAt := none }

def isExpired (i : Invitation) (now : Instant) : Bool := i.status = .pending && i.expiresAt ≤ now

def isAcceptable (i : Invitation) (now : Instant) : Bool := i.status = .pending && now < i.expiresAt

def accept (i : Invitation) (now : Instant) (acceptedByMemberId : FamilyMemberId) :
    Result Invitation :=
  if !i.isAcceptable now then .error .invitationInvalid
  else .ok { i with status := .accepted, acceptedAt := some now,
                    acceptedByMemberId := some acceptedByMemberId }

def revoke (i : Invitation) (now : Instant) : Result Invitation :=
  if i.status ≠ .pending then .error .invitationInvalid
  else .ok { i with status := .revoked, revokedAt := some now }

end Invitation

inductive Event where
  | familyCreated (familyId : FamilyId) (ownerMemberId : FamilyMemberId) (ownerUserId : UserId)
  | memberAdded (familyId : FamilyId) (memberId : FamilyMemberId) (kind : MemberKind)
      (role : MemberRole) (userId : Option UserId)
  | memberRoleChanged (familyId : FamilyId) (memberId : FamilyMemberId) (fromRole toRole : MemberRole)
  | memberRemoved (familyId : FamilyId) (memberId : FamilyMemberId) (hadUserId : Bool)
  | guardianshipEstablished (familyId : FamilyId) (guardianMemberId childMemberId : FamilyMemberId)
  | familyDeletionRequested (familyId : FamilyId) (requestedByMemberId : FamilyMemberId)
  deriving DecidableEq, Repr

end FamilyPlatform.Membership
