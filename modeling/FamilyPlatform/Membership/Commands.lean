import FamilyPlatform.Membership.Store

/-! The family commands. Every command reads first and saves whole rows last; the rows
it saves lock until its transaction commits, so that its saves act as one batch. -/
namespace FamilyPlatform.Membership
open Interleaving (Steps System)

inductive Reply where
  | failed (error : DomainError)
  | family (familyId : FamilyId) (ownerMemberId : FamilyMemberId)
  | joined (familyId : FamilyId) (memberId : FamilyMemberId)
  | member (memberId : FamilyMemberId)
  | guardianship (guardianshipId : GuardianshipId)
  | invitation (invitationId : InvitationId)
  | done
  deriving DecidableEq, Repr

abbrev Script := Steps Store Statement Reply

def fail (e : DomainError) : Script := .returned (.failed e)

def save (batch : List Statement) (reply : Reply) : Script := .commit batch (fun _ => .returned reply)

/- Both aggregates are valid before the transaction opens. -/
def createFamily (ownerUserId : UserId) (ownerDisplayName name : String) (fresh : Nat) : Script :=
  match Family.create fresh name with
  | .error e => fail e
  | .ok family =>
    match FamilyMember.createOwner fresh fresh ownerUserId ownerDisplayName with
    | .error e => fail e
    | .ok owner => save [.saveFamily fresh family,.saveMember fresh owner,
        .append (.familyCreated fresh fresh ownerUserId),
        .append (.memberAdded fresh fresh .adult .owner (some ownerUserId))] (.family fresh fresh)

def invitationTtlMs : Instant := 14 * 24 * 60 * 60 * 1000

def createInvitation (now : Instant) (familyId : FamilyId) (invitedByMemberId : FamilyMemberId)
    (email : EmailAddress) (proposedRole : MemberRole) (existingUserId : Option UserId)
    (tokenHash : String) (fresh : Nat) : Script :=
  match Invitation.create fresh familyId email proposedRole tokenHash invitedByMemberId now
      invitationTtlMs with
  | .error e => fail e
  | .ok invitation => .read fun s =>
    if findCurrent familyId s = none then fail .notFound else
    .read fun s =>
    if (existingUserId.bind (fun userId => findStandingByUserId familyId userId s)).isSome then
      fail .alreadyMember else
    .read fun s =>
    if (findPendingByEmail familyId email s).isSome then fail .alreadyMember
    else save [.saveInvitation familyId invitation] (.invitation fresh)

def localPart (email : EmailAddress) : String :=
  String.ofList (email.value.toList.takeWhile (· ≠ '@'))

/- The invitation is looked up before the transaction that accepts it. -/
def acceptInvitation (now : Instant) (tokenHash : String) (callerUserId : UserId)
    (callerEmail : EmailAddress) (fresh : Nat) : Script :=
  .read fun s =>
  match findByTokenHash tokenHash s with
  | none => fail .invitationInvalid
  | some invitation =>
    if invitation.status = .accepted then
      match invitation.acceptedByMemberId with
      | none => fail .invitationInvalid
      | some memberId =>
        if callerEmail ≠ invitation.email then fail .invitationEmailMismatch
        else .returned (.joined invitation.familyId memberId)
    else if invitation.status ≠ .pending || invitation.isExpired now then fail .invitationInvalid
    else if callerEmail ≠ invitation.email then fail .invitationEmailMismatch
    else
      match FamilyMember.createFromInvitation fresh invitation.familyId callerUserId
          invitation.proposedRole (localPart callerEmail) with
      | .error e => fail e
      | .ok member =>
        match invitation.accept now fresh with
        | .error e => fail e
        | .ok accepted => save [.saveMember invitation.familyId member,
            .saveInvitation invitation.familyId accepted,
            .append (.memberAdded invitation.familyId fresh .adult invitation.proposedRole
              (some callerUserId))] (.joined invitation.familyId fresh)

/- The adder becomes a guardian in the transaction that creates the child. -/
def addMember (familyId : FamilyId) (addedByMemberId : FamilyMemberId) (kind : MemberKind)
    (displayName : String) (dateOfBirth : Option Instant) (fresh : Nat) : Script :=
  match FamilyMember.createUnlinked fresh familyId kind displayName dateOfBirth with
  | .error e => fail e
  | .ok member => .read fun s =>
    match findById familyId addedByMemberId s with
    | none => fail .notFound
    | some adder =>
      let added := [.saveMember familyId member,
        .append (.memberAdded familyId fresh member.kind member.role none)]
      if kind = .child then
        match Guardianship.establish fresh familyId adder fresh member.kind with
        | .error e => fail e
        | .ok guardianship => save (added ++ [.saveGuardianship familyId guardianship,
            .append (.guardianshipEstablished familyId guardianship.guardianMemberId fresh)])
            (.member fresh)
      else save added (.member fresh)

def coverEach (familyId : FamilyId) (next : Script) : List FamilyMemberId → Script
  | [] => next
  | childId :: rest => .read fun s =>
    match assertGuardianCoverage ((countActiveForChild familyId childId s : Int) - 1) with
    | .error e => fail e
    | .ok _ => coverEach familyId next rest

def findEach (familyId : FamilyId) (guardian : FamilyMemberId) (next : List Guardianship → Script) :
    List FamilyMemberId → List Guardianship → Script
  | [],found => next found
  | childId :: rest,found => .read fun s =>
    match findActive familyId guardian childId s with
    | some guardianship => findEach familyId guardian next rest (found ++ [guardianship])
    | none => findEach familyId guardian next rest found

def finishEach (now : Instant) (familyId : FamilyId) (guardianshipsToEnd : List Guardianship) :
    List Statement :=
  guardianshipsToEnd.map (fun guardianship => .saveGuardianship familyId (guardianship.finish now))

def saveRoleChange (now : Instant) (familyId : FamilyId) (member : FamilyMember) (newRole : MemberRole)
    (guardianshipsToEnd : List Guardianship) : Script :=
  match member.changeRole newRole with
  | .error e => fail e
  | .ok changed => save (finishEach now familyId guardianshipsToEnd ++ [.saveMember familyId changed,
      .append (.memberRoleChanged familyId member.id member.role newRole)]) .done

def changeMemberRole (now : Instant) (familyId : FamilyId) (memberId : FamilyMemberId)
    (newRole : MemberRole) : Script :=
  .read fun s =>
  match findById familyId memberId s with
  | none => fail .notFound
  | some member =>
    if !member.isActive then fail .notFound
    else if isEligibleGuardian member.kind member.role && !isEligibleGuardian member.kind newRole then
      .read fun s =>
      let guardedChildIds := listActiveChildIdsGuardedBy familyId member.id s
      coverEach familyId (findEach familyId member.id (saveRoleChange now familyId member newRole)
        guardedChildIds []) guardedChildIds
    else saveRoleChange now familyId member newRole []

def removeMember (now : Instant) (familyId : FamilyId) (memberId : FamilyMemberId) : Script :=
  .read fun s =>
  match findById familyId memberId s with
  | none => fail .notFound
  | some member =>
    if !member.isActive then fail .notFound
    else if member.role = .owner then
      fail (.ownerRequired (some "The sole owner cannot be removed — transfer ownership first."))
    else
      .read fun s =>
      let guardedChildIds := listActiveChildIdsGuardedBy familyId member.id s
      coverEach familyId (findEach familyId member.id (fun guardianshipsToEnd =>
        save (finishEach now familyId guardianshipsToEnd ++ [.saveMember familyId (member.remove now),
          .append (.memberRemoved familyId member.id member.userId.isSome)]) .done)
        guardedChildIds []) guardedChildIds

/- The outgoing owner is saved first: `family_one_owner` is checked at each statement. -/
def transferOwnership (familyId : FamilyId) (toMemberId : FamilyMemberId) : Script :=
  .read fun s =>
  match findById familyId toMemberId s with
  | none => fail .notFound
  | some newOwner =>
    if !newOwner.isActive then fail .notFound else
    .read fun s =>
    match (listActive familyId s).find? (fun candidate => candidate.role = .owner) with
    | none => fail .notFound
    | some currentOwner =>
      if currentOwner.id = newOwner.id then
        fail (.ownerIneligible "This member already owns the family.")
      else
        match newOwner.promoteToOwner with
        | .error e => fail e
        | .ok promoted =>
          match currentOwner.demoteFromOwnership with
          | .error e => fail e
          | .ok demoted => save [.saveMember familyId demoted,.saveMember familyId promoted,
              .append (.memberRoleChanged familyId currentOwner.id .owner .adult),
              .append (.memberRoleChanged familyId newOwner.id .adult .owner)] .done

def grantGuardianship (familyId : FamilyId) (childMemberId guardianMemberId : FamilyMemberId)
    (fresh : Nat) : Script :=
  .read fun s =>
  match findById familyId childMemberId s with
  | none => fail .notFound
  | some child =>
    if !child.isActive || child.kind ≠ .child then fail .notFound else
    .read fun s =>
    match findById familyId guardianMemberId s with
    | none => fail .notFound
    | some guardian =>
      if !guardian.isActive then fail .notFound else
      .read fun s =>
      match findActive familyId guardian.id child.id s with
      | some existing => .returned (.guardianship existing.id)
      | none =>
        match Guardianship.establish fresh familyId guardian child.id child.kind with
        | .error e => fail e
        | .ok established => save [.saveGuardianship familyId established,
            .append (.guardianshipEstablished familyId guardian.id child.id)]
            (.guardianship established.id)

def endGuardianship (now : Instant) (familyId : FamilyId)
    (childMemberId guardianMemberId : FamilyMemberId) : Script :=
  .read fun s =>
  match findActive familyId guardianMemberId childMemberId s with
  | none => fail .notFound
  | some guardianship => .read fun s =>
    match assertGuardianCoverage ((countActiveForChild familyId childMemberId s : Int) - 1) with
    | .error e => fail e
    | .ok _ => save [.saveGuardianship familyId (guardianship.finish now)] .done

inductive Call where
  | createFamily (ownerUserId : UserId) (ownerDisplayName name : String)
  | createInvitation (now : Instant) (familyId : FamilyId) (invitedByMemberId : FamilyMemberId)
      (email : EmailAddress) (proposedRole : MemberRole) (existingUserId : Option UserId)
      (tokenHash : String)
  | acceptInvitation (now : Instant) (tokenHash : String) (callerUserId : UserId)
      (callerEmail : EmailAddress)
  | addMember (familyId : FamilyId) (addedByMemberId : FamilyMemberId) (kind : MemberKind)
      (displayName : String) (dateOfBirth : Option Instant)
  | changeMemberRole (now : Instant) (familyId : FamilyId) (memberId : FamilyMemberId)
      (newRole : MemberRole)
  | removeMember (now : Instant) (familyId : FamilyId) (memberId : FamilyMemberId)
  | transferOwnership (familyId : FamilyId) (toMemberId : FamilyMemberId)
  | grantGuardianship (familyId : FamilyId) (childMemberId guardianMemberId : FamilyMemberId)
  | endGuardianship (now : Instant) (familyId : FamilyId)
      (childMemberId guardianMemberId : FamilyMemberId)
  deriving DecidableEq, Repr

/- Fresh identifiers are the number of the call. -/
def start : Call → Nat → Script
  | .createFamily ownerUserId ownerDisplayName name,fresh =>
    createFamily ownerUserId ownerDisplayName name fresh
  | .createInvitation now familyId invitedBy email proposedRole existingUserId tokenHash,fresh =>
    createInvitation now familyId invitedBy email proposedRole existingUserId tokenHash fresh
  | .acceptInvitation now tokenHash callerUserId callerEmail,fresh =>
    acceptInvitation now tokenHash callerUserId callerEmail fresh
  | .addMember familyId addedBy kind displayName dateOfBirth,fresh =>
    addMember familyId addedBy kind displayName dateOfBirth fresh
  | .changeMemberRole now familyId memberId newRole,_ =>
    changeMemberRole now familyId memberId newRole
  | .removeMember now familyId memberId,_ => removeMember now familyId memberId
  | .transferOwnership familyId toMemberId,_ => transferOwnership familyId toMemberId
  | .grantGuardianship familyId child guardian,fresh => grantGuardianship familyId child guardian fresh
  | .endGuardianship now familyId child guardian,_ => endGuardianship now familyId child guardian

def commands : System Store Statement Call Reply := ⟨apply,start⟩

end FamilyPlatform.Membership
