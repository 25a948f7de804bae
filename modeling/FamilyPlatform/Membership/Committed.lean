import FamilyPlatform.Lib.Serial
import FamilyPlatform.Membership.Promised

/-! What a family command commits when it is alone with the store: every read of it sees
the store that its commit finds. -/
namespace FamilyPlatform.Membership
open Interleaving (Proposes)

structure Withdrawn (s : Store) (scope : FamilyId) (guardian : FamilyMemberId) (gs : List Guardianship) : Prop where
  there : ∀ g ∈ gs, g ∈ s.guardianships.rows ∧ g.familyId = scope ∧ g.guardianMemberId = guardian ∧ g.isActive
  all : ∀ g ∈ s.guardianships.rows, g.familyId = scope → g.guardianMemberId = guardian → g.isActive →
    ∃ h ∈ gs, h.id = g.id
  covered : ∀ g ∈ gs, (assertGuardianCoverage ((countActiveForChild scope g.childMemberId s : Int) - 1)).isOk

inductive Committed (n : Nat) (s : Store) : Call → List Statement → Prop where
  | founded {userId display name f owner} (family : f.id = n)
      (made : FamilyMember.createOwner n n userId display = .ok owner) :
      Committed n s (.createFamily userId display name) [.saveFamily n f,.saveMember n owner,
        .append (.familyCreated n n userId),.append (.memberAdded n n .adult .owner (some userId))]
  | invited {now scope invitedBy email role existing tokenHash invitation} :
      Committed n s (.createInvitation now scope invitedBy email role existing tokenHash)
        [.saveInvitation scope invitation]
  | joined {now tokenHash userId email scope m accepted role name}
      (made : FamilyMember.createFromInvitation n scope userId role name = .ok m) :
      Committed n s (.acceptInvitation now tokenHash userId email) [.saveMember scope m,
        .saveInvitation scope accepted,.append (.memberAdded scope n .adult role (some userId))]
  | enrolled {scope adder kind m name birth} (made : FamilyMember.createUnlinked n scope kind name birth = .ok m)
      (grown : kind ≠ .child) : Committed n s (.addMember scope adder kind name birth)
        [.saveMember scope m,.append (.memberAdded scope n m.kind m.role none)]
  | born {scope adderId adder m g name birth}
      (made : FamilyMember.createUnlinked n scope .child name birth = .ok m)
      (found : findById scope adderId s = some adder)
      (established : Guardianship.establish n scope adder n m.kind = .ok g) :
      Committed n s (.addMember scope adderId .child name birth)
        [.saveMember scope m,.append (.memberAdded scope n m.kind m.role none),.saveGuardianship scope g,
          .append (.guardianshipEstablished scope g.guardianMemberId n)]
  | changed {now scope id member role next gs} (found : findById scope id s = some member) (active : member.isActive)
      (ok : member.changeRole role = .ok next)
      (withdrawn : Withdrawn s scope member.id gs ∨
        gs = [] ∧ (isEligibleGuardian member.kind member.role = false ∨ isEligibleGuardian member.kind role = true)) :
      Committed n s (.changeMemberRole now scope id role) (finishEach now scope gs ++
        [.saveMember scope next,.append (.memberRoleChanged scope member.id member.role role)])
  | removed {now scope id member gs} (found : findById scope id s = some member) (active : member.isActive)
      (role : member.role ≠ .owner) (withdrawn : Withdrawn s scope member.id gs) :
      Committed n s (.removeMember now scope id) (finishEach now scope gs ++ [.saveMember scope (member.remove now),
        .append (.memberRemoved scope member.id member.userId.isSome)])
  | transferred {scope id newOwner currentOwner promoted demoted} (found : findById scope id s = some newOwner)
      (active : newOwner.isActive) (current : currentOwner ∈ listActive scope s) (owner : currentOwner.role = .owner)
      (different : currentOwner.id ≠ newOwner.id) (promote : newOwner.promoteToOwner = .ok promoted)
      (demote : currentOwner.demoteFromOwnership = .ok demoted) :
      Committed n s (.transferOwnership scope id) [.saveMember scope demoted,.saveMember scope promoted,
        .append (.memberRoleChanged scope currentOwner.id .owner .adult),
        .append (.memberRoleChanged scope newOwner.id .adult .owner)]
  | granted {scope childId child guardianId guardian g} (foundChild : findById scope childId s = some child)
      (activeChild : child.isActive) (kind : child.kind = .child) (found : findById scope guardianId s = some guardian)
      (active : guardian.isActive) (established : Guardianship.establish n scope guardian child.id child.kind = .ok g) :
      Committed n s (.grantGuardianship scope childId guardianId)
        [.saveGuardianship scope g,.append (.guardianshipEstablished scope guardian.id child.id)]
  | ended {now scope guardian child g} (found : findActive scope guardian child s = some g)
      (covered : (assertGuardianCoverage ((countActiveForChild scope child s : Int) - 1)).isOk) :
      Committed n s (.endGuardianship now scope child guardian) [.saveGuardianship scope (g.finish now)]

section
variable {batches : List Statement → Prop} {s : Store} {n : Nat}

theorem proposesSave {batch : List Statement} {reply : Reply} (is : batches batch) :
    Proposes batches (save batch reply) s := ⟨is,fun _ => ⟨reply,rfl⟩⟩

theorem proposesFail {e : DomainError} : Proposes batches (fail e) s := trivial

theorem proposesCover {familyId : FamilyId} {next : Script} {children : List FamilyMemberId}
    (after : (∀ child ∈ children, (assertGuardianCoverage ((countActiveForChild familyId child s : Int) - 1)).isOk) →
      Proposes batches next s) : Proposes batches (coverEach familyId next children) s := by
  induction children with
  | nil => exact after (fun _ mem => by cases mem)
  | cons child rest ih =>
    simp only [coverEach,Proposes]
    split
    · exact proposesFail
    · rename_i ok
      refine ih (fun later => after (fun c mem => ?_))
      rcases List.mem_cons.mp mem with rfl | mem
      · rw [ok]
        rfl
      · exact later c mem

theorem proposesFind {familyId : FamilyId} {guardian : FamilyMemberId} {next : List Guardianship → Script}
    {children : List FamilyMemberId} {found : List Guardianship}
    (after : Proposes batches (next (found ++ children.filterMap (fun child => findActive familyId guardian child s))) s) :
    Proposes batches (findEach familyId guardian next children found) s := by
  induction children generalizing found with
  | nil => simpa [findEach] using after
  | cons child rest ih =>
    simp only [findEach,Proposes]
    cases active : findActive familyId guardian child s with
    | none => exact ih (by simpa [active] using after)
    | some g => exact ih (by simpa [active] using after)

theorem withdrawnAll {scope : FamilyId} {guardian : FamilyMemberId}
    (covered : ∀ child ∈ listActiveChildIdsGuardedBy scope guardian s,
      (assertGuardianCoverage ((countActiveForChild scope child s : Int) - 1)).isOk) :
    Withdrawn s scope guardian ((listActiveChildIdsGuardedBy scope guardian s).filterMap
      (fun child => findActive scope guardian child s)) := by
  refine ⟨fun g mem => ?_,fun g mem family own active => ?_,fun g mem => ?_⟩
  · obtain ⟨child,-,found⟩ := List.mem_filterMap.mp mem
    have source := List.find?_some found
    simp only [Bool.and_eq_true,decide_eq_true_eq] at source
    exact ⟨List.mem_of_find?_eq_some found,source.1.1.1,source.1.1.2,source.2⟩
  · have listed : g.childMemberId ∈ listActiveChildIdsGuardedBy scope guardian s :=
      List.mem_map.mpr ⟨g,List.mem_filter.mpr ⟨mem,by simp [family,own,active]⟩,rfl⟩
    cases found : findActive scope guardian g.childMemberId s with
    | none =>
      have absent := List.find?_eq_none.mp found g mem
      simp [family,own,active] at absent
    | some h =>
      refine ⟨h,List.mem_filterMap.mpr ⟨_,listed,found⟩,?_⟩
      obtain ⟨there,owner,child⟩ := findActiveSource found
      have source := List.find?_some found
      simp only [Bool.and_eq_true,decide_eq_true_eq] at source
      exact s.legal.onePair h there g mem source.2 active (owner.trans own.symm) child
  · obtain ⟨child,listed,found⟩ := List.mem_filterMap.mp mem
    rw [(findActiveSource found).2.2]
    exact covered child listed

theorem roleChangeProposes {now : Instant} {scope : FamilyId} {id : FamilyMemberId} {member : FamilyMember}
    {role : MemberRole} {gs : List Guardianship} (found : findById scope id s = some member) (active : member.isActive)
    (withdrawn : Withdrawn s scope member.id gs ∨
      gs = [] ∧ (isEligibleGuardian member.kind member.role = false ∨ isEligibleGuardian member.kind role = true)) :
    Proposes (Committed n s (.changeMemberRole now scope id role)) (saveRoleChange now scope member role gs) s := by
  unfold saveRoleChange
  split
  · exact proposesFail
  · rename_i ok
    exact proposesSave (.changed found active ok withdrawn)

theorem createFamilyProposes {userId : UserId} {display name : String} :
    Proposes (Committed n s (.createFamily userId display name)) (createFamily userId display name n) s := by
  unfold createFamily
  split
  · exact proposesFail
  · rename_i family created
    split
    · exact proposesFail
    · rename_i owner made
      exact proposesSave (.founded (familyCreateSource created) made)

theorem createInvitationProposes {now familyId invitedBy email role existing tokenHash} :
    Proposes (Committed n s (.createInvitation now familyId invitedBy email role existing tokenHash))
      (createInvitation now familyId invitedBy email role existing tokenHash n) s := by
  unfold createInvitation
  split
  · exact proposesFail
  · simp only [Proposes]
    split
    · exact proposesFail
    · simp only [Proposes]
      split
      · exact proposesFail
      · simp only [Proposes]
        split
        · exact proposesFail
        · exact proposesSave .invited

theorem acceptInvitationProposes {now tokenHash userId email} :
    Proposes (Committed n s (.acceptInvitation now tokenHash userId email))
      (acceptInvitation now tokenHash userId email n) s := by
  unfold acceptInvitation
  simp only [Proposes]
  split
  · exact proposesFail
  · split
    · split
      · exact proposesFail
      · split
        · exact proposesFail
        · trivial
    · split
      · exact proposesFail
      · split
        · exact proposesFail
        · split
          · exact proposesFail
          · rename_i member made
            split
            · exact proposesFail
            · exact proposesSave (.joined made)

theorem addMemberProposes {familyId adder kind name birth} :
    Proposes (Committed n s (.addMember familyId adder kind name birth))
      (addMember familyId adder kind name birth n) s := by
  unfold addMember
  split
  · exact proposesFail
  · rename_i member made
    simp only [Proposes]
    split
    · exact proposesFail
    · rename_i adder found
      split
      · rename_i child
        subst child
        split
        · exact proposesFail
        · rename_i established
          exact proposesSave (.born made found established)
      · rename_i grown
        exact proposesSave (.enrolled made grown)

theorem changeMemberRoleProposes {now familyId memberId role} :
    Proposes (Committed n s (.changeMemberRole now familyId memberId role))
      (changeMemberRole now familyId memberId role) s := by
  unfold changeMemberRole
  simp only [Proposes]
  split
  · exact proposesFail
  · rename_i member found
    split
    · exact proposesFail
    · rename_i active
      have active : member.isActive := by simpa using active
      split
      · simp only [Proposes]
        exact proposesCover (fun covered => proposesFind (roleChangeProposes found active
          (.inl (by simpa using withdrawnAll covered))))
      · rename_i keeps
        refine roleChangeProposes found active (.inr ⟨rfl,?_⟩)
        simpa [or_iff_not_imp_left] using keeps

theorem removeMemberProposes {now familyId memberId} :
    Proposes (Committed n s (.removeMember now familyId memberId)) (removeMember now familyId memberId) s := by
  unfold removeMember
  simp only [Proposes]
  split
  · exact proposesFail
  · rename_i member found
    split
    · exact proposesFail
    · rename_i active
      split
      · exact proposesFail
      · rename_i role
        simp only [Proposes]
        exact proposesCover (fun covered => proposesFind (proposesSave (.removed found (by simpa using active) role
          (by simpa using withdrawnAll covered))))

theorem transferOwnershipProposes {familyId toMemberId} :
    Proposes (Committed n s (.transferOwnership familyId toMemberId)) (transferOwnership familyId toMemberId) s := by
  unfold transferOwnership
  simp only [Proposes]
  split
  · exact proposesFail
  · rename_i newOwner found
    split
    · exact proposesFail
    · rename_i active
      simp only [Proposes]
      split
      · exact proposesFail
      · rename_i currentOwner current
        split
        · exact proposesFail
        · rename_i different
          split
          · exact proposesFail
          · rename_i promote
            split
            · exact proposesFail
            · rename_i demote
              exact proposesSave (.transferred found (by simpa using active) (List.mem_of_find?_eq_some current)
                (by simpa using List.find?_some current) different promote demote)

theorem grantGuardianshipProposes {familyId child guardian} :
    Proposes (Committed n s (.grantGuardianship familyId child guardian))
      (grantGuardianship familyId child guardian n) s := by
  unfold grantGuardianship
  simp only [Proposes]
  split
  · exact proposesFail
  · rename_i child foundChild
    split
    · exact proposesFail
    · rename_i stands
      simp only [Bool.or_eq_true,Bool.not_eq_true',decide_eq_true_eq,not_or,Bool.not_eq_false,not_not] at stands
      simp only [Proposes]
      split
      · exact proposesFail
      · rename_i guardian found
        split
        · exact proposesFail
        · rename_i active
          simp only [Proposes]
          split
          · trivial
          · split
            · exact proposesFail
            · rename_i established
              exact proposesSave (.granted foundChild stands.1 stands.2 found (by simpa using active) established)

theorem endGuardianshipProposes {now familyId child guardian} :
    Proposes (Committed n s (.endGuardianship now familyId child guardian))
      (endGuardianship now familyId child guardian) s := by
  unfold endGuardianship
  simp only [Proposes]
  split
  · exact proposesFail
  · rename_i guardianship found
    simp only [Proposes]
    split
    · exact proposesFail
    · rename_i covered
      exact proposesSave (.ended found (by rw [covered]; rfl))

theorem commandsPropose (call : Call) : Proposes (Committed n s call) (commands.start call n) s := by
  change Proposes (Committed n s call) (start call n) s
  cases call <;> simp only [start]
  case createFamily => exact createFamilyProposes
  case createInvitation => exact createInvitationProposes
  case acceptInvitation => exact acceptInvitationProposes
  case addMember => exact addMemberProposes
  case changeMemberRole => exact changeMemberRoleProposes
  case removeMember => exact removeMemberProposes
  case transferOwnership => exact transferOwnershipProposes
  case grantGuardianship => exact grantGuardianshipProposes
  case endGuardianship => exact endGuardianshipProposes

end
end FamilyPlatform.Membership
