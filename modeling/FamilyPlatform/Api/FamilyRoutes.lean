import FamilyPlatform.Lib.Gates
import FamilyPlatform.Membership.Capabilities

/-! The family routes behind their guards. A request names a family and a user whose session
holds; the membership guard reads the standing of the user, the capability guard compares
it, and only then the command or the query runs, in a transaction of its own. -/
namespace FamilyPlatform.FamilyApi
open Interleaving (Steps System)
open FamilyPlatform.Membership

inductive ProblemNamespace where
  | family | calendar | task
  deriving DecidableEq, Repr

def ProblemNamespace.text : ProblemNamespace → String
  | .family => "family"
  | .calendar => "calendar"
  | .task => "task"

inductive Body where
  | problem (type : String) (detail : Option String)
  | result (reply : Reply)
  | family (family : Family)
  | memberships (entries : List FamilyListEntry)
  | members (members : List MemberSummary)
  | member (member : MemberDetail)
  | invitations (invitations : List InvitationSummary)
  deriving DecidableEq, Repr

structure Answer where
  status : Nat
  body : Body
  deriving DecidableEq, Repr

def notFound (problemNamespace : ProblemNamespace) : Answer :=
  ⟨404,.problem (problemNamespace.text ++ "/not_found") none⟩

def capabilityRequired (problemNamespace : ProblemNamespace) (required : Capability) : Answer :=
  ⟨403,.problem (problemNamespace.text ++ "/capability_required") (some required.text)⟩

def accessDenied (userId : UserId) (familyId : FamilyId) (correlationId : Nat) : AuditEntry where
  actorUserId := some userId
  actorMemberId := none
  familyId := familyId
  subjectType := "family"
  subjectId := familyId
  action := "access.denied"
  purpose := "family-scoped request"
  result := .denied
  reason := some "no active standing in the family, or the family does not exist"
  correlationId := correlationId

def capabilityDenied (userId : UserId) (familyId : FamilyId) (context : FamilyContext) (required : Capability)
    (correlationId : Nat) : AuditEntry where
  actorUserId := some userId
  actorMemberId := some context.memberId
  familyId := familyId
  subjectType := "family"
  subjectId := familyId
  action := "access.denied"
  purpose := "capability " ++ required.text
  result := .denied
  reason := some ("member holds " ++ toString context.capabilities.length ++ " capabilities, not including " ++
    required.text)
  correlationId := correlationId

/- The caller is not told which it was: a 403 would say that the family exists. -/
def familyMembershipGuard (problemNamespace : ProblemNamespace) (userId : UserId) (familyId : FamilyId)
    (correlationId : Nat) (next : FamilyContext → Recorded Answer) : Recorded Answer :=
  (inRecords (resolveFamilyContext userId familyId)).bind fun
    | none => .commit [.audit (accessDenied userId familyId correlationId)] fun _ =>
      .returned (notFound problemNamespace)
    | some context => next context

theorem familyMembershipGuardReads (problemNamespace : ProblemNamespace) (userId : UserId) (familyId : FamilyId)
    (correlationId : Nat) (next : FamilyContext → Recorded Answer) :
    let denied : Recorded Answer := .commit [.audit (accessDenied userId familyId correlationId)] fun _ =>
      .returned (notFound problemNamespace)
    familyMembershipGuard problemNamespace userId familyId correlationId next = .read fun r =>
      if (findCurrent familyId r.store).any (·.deletionRequestedAt.isNone) then .read fun r =>
        (findStandingByUserId familyId userId r.store).elim denied
          (fun standing => next ⟨standing.id,standing.role,capabilitiesFor standing.role⟩)
      else denied := by
  intro denied
  simp only [familyMembershipGuard,inRecords,resolveFamilyContext,Steps.over,Steps.lift,Steps.bind]
  congr
  funext r
  cases findCurrent familyId r.store with
  | none => rfl
  | some family =>
    cases requested : family.deletionRequestedAt with
    | some at_ => simp [requested,Steps.over,Steps.lift,Steps.bind,denied]
    | none =>
      simp only [requested,Option.isSome_none,Bool.false_eq_true,if_false,Option.any_some,Option.isNone_none,if_true,
        Steps.over,Steps.lift,Steps.bind]
      congr
      funext u
      cases findStandingByUserId familyId userId u.store <;> rfl

def capabilityGuard (problemNamespace : ProblemNamespace) (required : Capability) (userId : UserId)
    (familyId : FamilyId) (correlationId : Nat) (context : FamilyContext) (next : Recorded Answer) : Recorded Answer :=
  if required ∈ context.capabilities then next
  else .commit [.audit (capabilityDenied userId familyId context required correlationId)] fun _ =>
    .returned (capabilityRequired problemNamespace required)

/- The routes that name a family, with what is left of the body once the contract accepts it. -/
inductive Route where
  | getFamily
  | updateFamily (name : Option String)
  | listMembers
  | readMember (memberId : FamilyMemberId)
  | addMember (kind : MemberKind) (displayName : String) (dateOfBirth : Option Instant)
  | grantGuardianship (childMemberId guardianMemberId : FamilyMemberId)
  | endGuardianship (now : Instant) (childMemberId guardianMemberId : FamilyMemberId)
  | createInvitation (now : Instant) (email : EmailAddress) (proposedRole : MemberRole)
      (existingUserId : Option UserId) (tokenHash : String)
  | listInvitations
  | revokeInvitation (now : Instant) (invitationId : InvitationId)
  | changeMemberRole (now : Instant) (memberId : FamilyMemberId) (newRole : MemberRole)
  | removeMember (now : Instant) (memberId : FamilyMemberId)
  | transferOwnership (toMemberId : FamilyMemberId)
  | requestFamilyDeletion (now : Instant)
  deriving DecidableEq, Repr

namespace Route

def required : Route → Capability
  | .getFamily => .familyRead
  | .updateFamily _ => .familyManage
  | .listMembers | .readMember _ => .membersRead
  | .addMember _ _ _ => .membersAdd
  | .grantGuardianship _ _ | .endGuardianship _ _ _ => .guardianshipManage
  | .createInvitation _ _ _ _ _ | .listInvitations | .revokeInvitation _ _ => .membersManage
  | .changeMemberRole _ _ _ | .removeMember _ _ | .transferOwnership _ => .membersManage
  | .requestFamilyDeletion _ => .familyDelete

def unprocessable (type reason : String) : Answer := ⟨422,.problem type (some reason)⟩

def conflict (type : String) : Answer := ⟨409,.problem type none⟩

/- An error that a route has no answer of its own for is reported as not found. -/
def problem : Route → DomainError → Answer
  | .updateFamily _, .nameRequired reason => unprocessable "family/name_required" reason
  | .addMember _ _ _, .nameRequired reason => unprocessable "family/name_required" reason
  | .addMember _ _ _, .guardianIneligible reason => unprocessable "family/guardian_ineligible" reason
  | .readMember _, .guardianshipRequired => ⟨403,.problem "family/guardianship_required" none⟩
  | .grantGuardianship _ _, .guardianIneligible reason => unprocessable "family/guardian_ineligible" reason
  | .endGuardianship _ _ _, .lastGuardian => conflict "family/last_guardian"
  | .createInvitation _ _ _ _ _, .alreadyMember => conflict "family/already_member"
  | .revokeInvitation _ _, .invitationInvalid => ⟨422,.problem "family/invitation_invalid" none⟩
  | .changeMemberRole _ _ _, .lastGuardian => conflict "family/last_guardian"
  | .changeMemberRole _ _ _, .ownerRequired _ => conflict "family/owner_required"
  | .removeMember _ _, .lastGuardian => conflict "family/last_guardian"
  | .removeMember _ _, .ownerRequired _ => conflict "family/owner_required"
  | .transferOwnership _, .ownerIneligible reason => unprocessable "family/owner_ineligible" reason
  | _, _ => notFound .family

def success : Route → Nat
  | .addMember _ _ _ | .grantGuardianship _ _ | .createInvitation _ _ _ _ _ => 201
  | .requestFamilyDeletion _ => 202
  | _ => 200

def answer (route : Route) : Reply → Answer
  | .failed e => route.problem e
  | reply => ⟨route.success,.result reply⟩

def outcome {α : Type} (route : Route) (body : α → Body) : Result α → Answer
  | .error e => route.problem e
  | .ok value => ⟨route.success,body value⟩

end Route

/- What runs once both guards have let the request through. `fresh` stands for the identifiers
that the request draws, its correlation id among them. -/
def handler (route : Route) (userId : UserId) (familyId : FamilyId) (fresh : Nat) (context : FamilyContext) :
    Recorded Answer :=
  let command (script : Script) : Recorded Answer := (inRecords script).bind fun reply => .returned (route.answer reply)
  match route with
  | .getFamily => (getFamily familyId).bind fun found =>
    .returned (match found with
      | none => notFound .family
      | some aggregate => ⟨200,.family aggregate⟩)
  | .updateFamily name => (updateFamily familyId name).bind fun result => .returned (route.outcome .family result)
  | .listMembers => (listMembers familyId context.memberId).bind fun members => .returned ⟨200,.members members⟩
  | .readMember memberId =>
    (readMember familyId memberId context.memberId (some userId) fresh).bind fun result =>
      .returned (route.outcome .member result)
  | .addMember kind displayName dateOfBirth =>
    command (addMember familyId context.memberId kind displayName dateOfBirth fresh)
  | .grantGuardianship child guardian => command (grantGuardianship familyId child guardian fresh)
  | .endGuardianship now child guardian => command (endGuardianship now familyId child guardian)
  | .createInvitation now email proposedRole existingUserId tokenHash =>
    command (createInvitation now familyId context.memberId email proposedRole existingUserId tokenHash fresh)
  | .listInvitations => (listInvitations familyId).bind fun invitations => .returned ⟨200,.invitations invitations⟩
  | .revokeInvitation now invitationId => command (revokeInvitation now familyId invitationId)
  | .changeMemberRole now memberId newRole => command (changeMemberRole now familyId memberId newRole)
  | .removeMember now memberId => command (removeMember now familyId memberId)
  | .transferOwnership toMemberId => command (transferOwnership familyId toMemberId)
  | .requestFamilyDeletion now => command (requestFamilyDeletion now familyId context.memberId)

inductive Request where
  | createFamily (ownerUserId : UserId) (ownerDisplayName name : String)
  | listFamilies (userId : UserId)
  | acceptInvitation (now : Instant) (tokenHash : String) (callerUserId : UserId) (callerEmail : EmailAddress)
  | scoped (userId : UserId) (familyId : FamilyId) (route : Route)
  deriving DecidableEq, Repr

def founded : Reply → Answer
  | .failed (.nameRequired reason) => ⟨422,.problem "family/name_required" (some reason)⟩
  | .failed _ => ⟨422,.problem "family/name_required" (some "Unexpected error.")⟩
  | reply => ⟨201,.result reply⟩

def accepted : Reply → Answer
  | .failed .invitationEmailMismatch => ⟨403,.problem "family/invitation_email_mismatch" none⟩
  | .failed _ => ⟨422,.problem "family/invitation_invalid" none⟩
  | reply => ⟨200,.result reply⟩

def respond (taken : Nat) : Request → Nat → Recorded Answer
  | .createFamily ownerUserId ownerDisplayName name, number =>
    (inRecords (createFamily ownerUserId ownerDisplayName name (taken + number))).bind fun reply =>
      .returned (founded reply)
  | .listFamilies userId, _ => (listFamilies userId).bind fun entries => .returned ⟨200,.memberships entries⟩
  | .acceptInvitation now tokenHash callerUserId callerEmail, number =>
    (inRecords (acceptInvitation now tokenHash callerUserId callerEmail (taken + number))).bind fun reply =>
      .returned (accepted reply)
  | .scoped userId familyId route, number =>
    familyMembershipGuard .family userId familyId (taken + number) fun context =>
    capabilityGuard .family route.required userId familyId (taken + number) context
      (handler route userId familyId (taken + number) context)

/- The identifiers below `taken` were given out before the run. -/
def familyApi (taken : Nat) : System Records RecordStatement Request Answer := ⟨applyRecord,respond taken⟩

end FamilyPlatform.FamilyApi
