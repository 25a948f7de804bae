import FamilyPlatform.Lib.Unwinding
import FamilyPlatform.Membership.Capabilities
import FamilyPlatform.Membership.Scoped

/-! What the transactions of a family read is its part of the tables: they do the same over
two stores that hold the same part. -/
namespace FamilyPlatform.Membership
open Interleaving (Steps Similar similarRead similarCommit similarBind)

def Mirrors {Statement Outcome Store : Type} (alike : Store → Store → Prop) (l : Steps Store Statement Outcome) : Prop :=
  Similar alike Eq l l

section
variable {Statement Outcome Store : Type} {alike : Store → Store → Prop}

theorem mirrorsRead {next : Store → Steps Store Statement Outcome} (same : ∀ s t, alike s t → next t = next s)
    (after : ∀ s, Mirrors alike (next s)) : Mirrors alike (.read next) :=
  similarRead fun s t is => (same s t is).symm ▸ after s

theorem mirrorsBind {Next : Type} {l : Steps Store Statement Outcome} {f : Outcome → Next} (first : Mirrors alike l) :
    Mirrors alike (l.bind fun reply => .returned (f reply)) := similarBind first fun _ => rfl

theorem mirrorsCommit {batch : List Statement} {reply : Outcome} :
    Mirrors alike (Steps.commit batch fun _ => .returned reply) := similarCommit rfl fun _ _ _ => rfl

end

theorem createFamilyMirrors {ownerUserId : UserId} {ownerDisplayName name : String} {fresh : Nat}
    {alike : Store → Store → Prop} : Mirrors alike (createFamily ownerUserId ownerDisplayName name fresh) := by
  unfold createFamily
  split
  · rfl
  · split
    · rfl
    · exact mirrorsCommit

theorem acceptInvitationMirrors {now : Instant} {tokenHash : String} {userId : UserId} {email : EmailAddress} {fresh : Nat}
    {alike : Store → Store → Prop} (token : ∀ s t, alike s t → findByTokenHash tokenHash t = findByTokenHash tokenHash s) :
    Mirrors alike (acceptInvitation now tokenHash userId email fresh) := by
  refine mirrorsRead (fun s t is => by rw [token s t is]) (fun s => ?_)
  split
  · rfl
  · split
    · split
      · rfl
      · split <;> rfl
    · split
      · rfl
      · split
        · rfl
        · split
          · rfl
          · split
            · rfl
            · exact mirrorsCommit

theorem saveRoleChangeMirrors {now : Instant} {familyId : FamilyId} {member : FamilyMember} {newRole : MemberRole}
    {alike : Store → Store → Prop} (gs : List Guardianship) : Mirrors alike (saveRoleChange now familyId member newRole gs) := by
  unfold saveRoleChange
  split
  · rfl
  · exact mirrorsCommit

section
variable {alike : Store → Store → Prop} {familyId : FamilyId}
  (part : ∀ s t, alike s t → partOf familyId t.toTables = partOf familyId s.toTables)
include part

theorem coverEachMirrors {next : Script} (after : Mirrors alike next) (children : List FamilyMemberId) :
    Mirrors alike (coverEach familyId next children) := by
  induction children with
  | nil => exact after
  | cons child rest ih =>
    refine mirrorsRead (fun s t is => by rw [samePartCovered (part s t is)]) (fun s => ?_)
    split
    · rfl
    · exact ih

theorem findEachMirrors {guardian : FamilyMemberId} {next : List Guardianship → Script}
    (after : ∀ found, Mirrors alike (next found)) (children : List FamilyMemberId) (found : List Guardianship) :
    Mirrors alike (findEach familyId guardian next children found) := by
  induction children generalizing found with
  | nil => exact after found
  | cons child rest ih =>
    refine mirrorsRead (fun s t is => by rw [samePartGuardianship (part s t is)]) (fun s => ?_)
    split <;> exact ih _

theorem changeMemberRoleMirrors {now : Instant} {memberId : FamilyMemberId} {newRole : MemberRole} :
    Mirrors alike (changeMemberRole now familyId memberId newRole) := by
  refine mirrorsRead (fun s t is => by rw [samePartMember (part s t is)]) (fun s => ?_)
  split
  · rfl
  · split
    · rfl
    · split
      · refine mirrorsRead (fun s t is => by rw [samePartGuarded (part s t is)]) (fun s => ?_)
        exact coverEachMirrors part (findEachMirrors part saveRoleChangeMirrors _ _) _
      · exact saveRoleChangeMirrors []

theorem removeMemberMirrors {now : Instant} {memberId : FamilyMemberId} :
    Mirrors alike (removeMember now familyId memberId) := by
  refine mirrorsRead (fun s t is => by rw [samePartMember (part s t is)]) (fun s => ?_)
  split
  · rfl
  · split
    · rfl
    · split
      · rfl
      · refine mirrorsRead (fun s t is => by rw [samePartGuarded (part s t is)]) (fun s => ?_)
        exact coverEachMirrors part (findEachMirrors part (fun _ => mirrorsCommit) _ _) _

theorem addMemberMirrors {adder : FamilyMemberId} {kind : MemberKind} {name : String} {birth : Option Instant} {fresh : Nat} :
    Mirrors alike (addMember familyId adder kind name birth fresh) := by
  unfold addMember
  split
  · rfl
  · refine mirrorsRead (fun s t is => by rw [samePartMember (part s t is)]) (fun s => ?_)
    split
    · rfl
    · simp only
      split
      · split
        · rfl
        · exact mirrorsCommit
      · exact mirrorsCommit

theorem transferOwnershipMirrors {toMemberId : FamilyMemberId} : Mirrors alike (transferOwnership familyId toMemberId) := by
  refine mirrorsRead (fun s t is => by rw [samePartMember (part s t is)]) (fun s => ?_)
  split
  · rfl
  · split
    · rfl
    · refine mirrorsRead (fun s t is => by rw [samePartActive (part s t is)]) (fun s => ?_)
      split
      · rfl
      · split
        · rfl
        · split
          · rfl
          · split
            · rfl
            · exact mirrorsCommit

theorem grantGuardianshipMirrors {child guardian : FamilyMemberId} {fresh : Nat} :
    Mirrors alike (grantGuardianship familyId child guardian fresh) := by
  refine mirrorsRead (fun s t is => by rw [samePartMember (part s t is)]) (fun s => ?_)
  split
  · rfl
  · split
    · rfl
    · refine mirrorsRead (fun s t is => by rw [samePartMember (part s t is)]) (fun s => ?_)
      split
      · rfl
      · split
        · rfl
        · refine mirrorsRead (fun s t is => by rw [samePartGuardianship (part s t is)]) (fun s => ?_)
          split
          · rfl
          · split
            · rfl
            · exact mirrorsCommit

theorem endGuardianshipMirrors {now : Instant} {child guardian : FamilyMemberId} :
    Mirrors alike (endGuardianship now familyId child guardian) := by
  refine mirrorsRead (fun s t is => by rw [samePartGuardianship (part s t is)]) (fun s => ?_)
  split
  · rfl
  · refine mirrorsRead (fun s t is => by rw [samePartCovered (part s t is)]) (fun s => ?_)
    split
    · rfl
    · exact mirrorsCommit

theorem createInvitationMirrors {now : Instant} {by_ : FamilyMemberId} {email : EmailAddress} {role : MemberRole}
    {existing : Option UserId} {tokenHash : String} {fresh : Nat} :
    Mirrors alike (createInvitation now familyId by_ email role existing tokenHash fresh) := by
  unfold createInvitation
  split
  · rfl
  · refine mirrorsRead (fun s t is => by rw [samePartCurrent (part s t is)]) (fun s => ?_)
    split
    · rfl
    · refine mirrorsRead (fun s t is => ?_) (fun s => ?_)
      · have same (userId : UserId) : findStandingByUserId familyId userId t = findStandingByUserId familyId userId s :=
          samePartStanding (part s t is)
        simp only [same]
      · split
        · rfl
        · refine mirrorsRead (fun s t is => by rw [samePartPending (part s t is)]) (fun s => ?_)
          split
          · rfl
          · exact mirrorsCommit

theorem samePartListed {s t : Store} (is : alike s t) : listAll familyId t = listAll familyId s :=
  congrArg (fun p : Part => p.invitations.reverse) (part s t is)

theorem samePartInvitation {s t : Store} (is : alike s t) {id : InvitationId} :
    findInvitation familyId id t = findInvitation familyId id s := by
  have rows := congrArg (fun p : Part => p.invitations.find? (fun i => i.id = id)) (part s t is)
  unfold findInvitation
  rw [Table.findFilter,Table.findFilter]
  exact rows

theorem revokeInvitationMirrors {now : Instant} {invitationId : InvitationId} :
    Mirrors alike (revokeInvitation now familyId invitationId) := by
  refine mirrorsRead (fun s t is => by rw [samePartInvitation part is]) (fun s => ?_)
  split
  · rfl
  · split
    · rfl
    · exact mirrorsCommit

theorem requestFamilyDeletionMirrors {now : Instant} {requestedBy : FamilyMemberId} :
    Mirrors alike (requestFamilyDeletion now familyId requestedBy) := by
  refine mirrorsRead (fun s t is => by rw [samePartCurrent (part s t is)]) (fun s => ?_)
  split
  · rfl
  · simp only
    split
    · exact mirrorsCommit
    · exact mirrorsRead (fun s t is => by rw [samePartListed part is]) (fun s => mirrorsCommit)

end
end FamilyPlatform.Membership
