import FamilyPlatform.Membership.Capabilities
import FamilyPlatform.Membership.Scoped

/-! What a family transaction may write. `kept` is what is known of every store that it
reads; each row that it saves is its own, under a fresh identifier, or a copy of one that it
read of its family. -/
namespace FamilyPlatform.Membership
open Interleaving (Writes writesRead)

def Saves (scope : FamilyId) (batch : List Statement) (id : FamilyMemberId) : Prop :=
  ∃ m, .saveMember scope m ∈ batch ∧ m.id = id

def Known (kept : Store → Prop) (scope : FamilyId) (own : FamilyMemberId → Prop) (id : FamilyMemberId) : Prop :=
  own id ∨ ∃ s, kept s ∧ ∃ r ∈ s.members.rows, r.id = id ∧ r.familyId = scope

/- `own` are the members that the call saves; `joins` are the users and `brings` the token
hashes that it may put on file. -/
inductive Made (kept : Store → Prop) (scope : FamilyId) (fresh : Nat) (own : FamilyMemberId → Prop)
    (joins : UserId → Prop) (brings : String → Prop) : Statement → Prop where
  | founded {f} (id : f.id = fresh) (number : scope = fresh) : Made kept scope fresh own joins brings (.saveFamily scope f)
  | family {s r f} (known : kept s) (found : findCurrent scope s = some r) (id : f.id = r.id) :
      Made kept scope fresh own joins brings (.saveFamily scope f)
  | enrolled {m} (id : m.id = fresh) (family : m.familyId = scope) (user : ∀ u, m.userId = some u → joins u) :
      Made kept scope fresh own joins brings (.saveMember scope m)
  | changed {s r m} (known : kept s) (there : r ∈ s.members.rows) (family : r.familyId = scope) (active : r.isActive)
      (id : m.id = r.id) (same : m.familyId = scope) (user : ∀ u, m.userId = some u → r.userId = some u) :
      Made kept scope fresh own joins brings (.saveMember scope m)
  | established {g} (id : g.id = fresh) (family : g.familyId = scope)
      (guardian : Known kept scope own g.guardianMemberId) (child : Known kept scope own g.childMemberId) :
      Made kept scope fresh own joins brings (.saveGuardianship scope g)
  | finished {s r now} (known : kept s) (there : r ∈ s.guardianships.rows) (family : r.familyId = scope) :
      Made kept scope fresh own joins brings (.saveGuardianship scope (r.finish now))
  | invited {i} (id : i.id = fresh) (family : i.familyId = scope) (token : brings i.tokenHash)
      (by_ : Known kept scope own i.invitedByMemberId) (nobody : i.acceptedByMemberId = none) :
      Made kept scope fresh own joins brings (.saveInvitation scope i)
  | answered {s r i} (known : kept s) (there : r ∈ s.invitations.rows) (family : r.familyId = scope)
      (same : SameInvitation r i) (by_ : i.invitedByMemberId = r.invitedByMemberId)
      (who : ∀ id ∈ i.acceptedByMemberId, id ∈ r.acceptedByMemberId ∨ own id)
      (closed : i.status ≠ .pending) : Made kept scope fresh own joins brings (.saveInvitation scope i)
  | told {e} (family : e.familyId = scope) : Made kept scope fresh own joins brings (.append e)

theorem madeScoped {kept : Store → Prop} {scope : FamilyId} {fresh : Nat} {own : FamilyMemberId → Prop} {joins : UserId → Prop}
    {brings : String → Prop} {w : Statement} (made : Made kept scope fresh own joins brings w) : InScope scope w := by
  cases made <;> first | rfl | assumption

section
variable {kept : Store → Prop} {batches : List Statement → Prop}

theorem writesSave {batch : List Statement} {reply : Reply} (is : batches batch) :
    Writes kept batches (save batch reply) := ⟨is,fun _ _ => trivial⟩

theorem writesCover {familyId : FamilyId} {next : Script} {children : List FamilyMemberId}
    (after : Writes kept batches next) : Writes kept batches (coverEach familyId next children) := by
  induction children with
  | nil => exact after
  | cons child rest ih =>
    refine writesRead fun s _ => ?_
    split
    · trivial
    · exact ih

theorem writesFind {familyId : FamilyId} {guardian : FamilyMemberId} {next : List Guardianship → Script}
    {children : List FamilyMemberId} {found : List Guardianship}
    (before : ∀ g ∈ found, ∃ s, kept s ∧ g ∈ s.guardianships.rows ∧ g.familyId = familyId)
    (after : ∀ all, (∀ g ∈ all, ∃ s, kept s ∧ g ∈ s.guardianships.rows ∧ g.familyId = familyId) →
      Writes kept batches (next all)) : Writes kept batches (findEach familyId guardian next children found) := by
  induction children generalizing found with
  | nil => exact after found before
  | cons child rest ih =>
    refine writesRead fun s known => ?_
    split
    · rename_i g active
      have source := List.find?_some active
      simp only [Bool.and_eq_true,decide_eq_true_eq] at source
      refine ih (fun other mem => ?_)
      rcases List.mem_append.mp mem with old | new
      · exact before other old
      · rw [List.mem_singleton.mp new]
        exact ⟨s,known,List.mem_of_find?_eq_some active,source.1.1.1⟩
    · exact ih before

end

section
variable {kept : Store → Prop} {scope : FamilyId} {fresh : Nat} {own : FamilyMemberId → Prop}
  {joins : UserId → Prop} {brings : String → Prop}

theorem finishMade {now : Instant} {gs : List Guardianship}
    (found : ∀ g ∈ gs, ∃ s, kept s ∧ g ∈ s.guardianships.rows ∧ g.familyId = scope) :
    ∀ w ∈ finishEach now scope gs, Made kept scope fresh own joins brings w := by
  intro w mem
  obtain ⟨g,there,rfl⟩ := List.mem_map.mp mem
  obtain ⟨s,known,row,family⟩ := found g there
  exact .finished known row family

theorem changedMade {batch : List Statement} {s : Store} {id : FamilyMemberId} {r m : FamilyMember} {e : Event}
    (first : ∀ w ∈ batch, Made kept scope fresh own joins brings w) (known : kept s) (found : findById scope id s = some r)
    (active : r.isActive) (same : m.id = r.id ∧ m.familyId = r.familyId)
    (user : ∀ u, m.userId = some u → r.userId = some u) (family : e.familyId = scope) :
    ∀ w ∈ batch ++ [.saveMember scope m,.append e], Made kept scope fresh own joins brings w := by
  obtain ⟨there,-,own⟩ := findByIdSource found
  intro w mem
  rcases List.mem_append.mp mem with before | last
  · exact first w before
  · simp only [List.mem_cons,List.not_mem_nil,or_false] at last
    rcases last with rfl | rfl
    · exact .changed known there own active same.1 (same.2.trans own) user
    · exact .told family

theorem roleChangeMade {now : Instant} {s : Store} {id : FamilyMemberId} {member : FamilyMember} {newRole : MemberRole}
    {gs : List Guardianship} (known : kept s) (found : findById scope id s = some member) (active : member.isActive)
    (ends : ∀ g ∈ gs, ∃ s, kept s ∧ g ∈ s.guardianships.rows ∧ g.familyId = scope) :
    Writes kept (fun batch => ∀ w ∈ batch, Made kept scope fresh (Saves scope batch) joins brings w)
      (saveRoleChange now scope member newRole gs) := by
  unfold saveRoleChange
  split
  · trivial
  · rename_i changed ok
    obtain ⟨rfl,-⟩ := changeRoleSource ok
    exact writesSave (changedMade (finishMade ends) known found active ⟨rfl,rfl⟩ (fun u is => is) rfl)

theorem changeMemberRoleMade {now : Instant} {memberId : FamilyMemberId} {newRole : MemberRole} :
    Writes kept (fun batch => ∀ w ∈ batch, Made kept scope fresh (Saves scope batch) joins brings w)
      (changeMemberRole now scope memberId newRole) := by
  unfold changeMemberRole
  refine writesRead fun s known => ?_
  split
  · trivial
  · rename_i member found
    split
    · trivial
    · rename_i active
      have active : member.isActive := by simpa using active
      split
      · exact writesRead fun _ _ => writesCover (writesFind (fun g mem => absurd mem List.not_mem_nil)
          (fun all ends => roleChangeMade known found active ends))
      · exact roleChangeMade known found active (fun g mem => absurd mem List.not_mem_nil)

theorem removeMemberMade {now : Instant} {memberId : FamilyMemberId} :
    Writes kept (fun batch => ∀ w ∈ batch, Made kept scope fresh (Saves scope batch) joins brings w)
      (removeMember now scope memberId) := by
  unfold removeMember
  refine writesRead fun s known => ?_
  split
  · trivial
  · rename_i member found
    split
    · trivial
    · rename_i active
      have active : member.isActive := by simpa using active
      split
      · trivial
      · refine writesRead fun _ _ => writesCover (writesFind (fun g mem => absurd mem List.not_mem_nil) fun all ends => ?_)
        refine writesSave (changedMade (finishMade ends) known found active ⟨rfl,rfl⟩ (fun u is => ?_) rfl)
        cases is

theorem createFamilyMade {ownerUserId : UserId} {ownerDisplayName name : String} :
    Writes kept (fun batch => ∀ w ∈ batch, Made kept fresh fresh (Saves fresh batch) (· = ownerUserId) brings w)
      (createFamily ownerUserId ownerDisplayName name fresh) := by
  unfold createFamily
  split
  · trivial
  · rename_i family created
    split
    · trivial
    · rename_i owner made
      obtain ⟨id,own,-⟩ := createOwnerSource made
      have user : owner.userId = some ownerUserId := by
        simp only [FamilyMember.createOwner] at made
        split at made <;> cases made
        rfl
      refine writesSave fun w mem => ?_
      simp only [List.mem_cons,List.not_mem_nil,or_false] at mem
      rcases mem with rfl | rfl | rfl | rfl
      · exact .founded (familyCreateSource created) rfl
      · exact .enrolled id own (fun u is => Option.some.inj (is.symm.trans user))
      · exact .told rfl
      · exact .told rfl

theorem createInvitationMade {now : Instant} {invitedBy : FamilyMemberId} {email : EmailAddress} {role : MemberRole}
    {existing : Option UserId} {tokenHash : String}
    (by_ : ∃ s, kept s ∧ ∃ r ∈ s.members.rows, r.id = invitedBy ∧ r.familyId = scope) (token : brings tokenHash) :
    Writes kept (fun batch => ∀ w ∈ batch, Made kept scope fresh (Saves scope batch) joins brings w)
      (createInvitation now scope invitedBy email role existing tokenHash fresh) := by
  unfold createInvitation
  split
  · trivial
  · rename_i invitation created
    refine writesRead fun s _ => ?_
    split
    · trivial
    · refine writesRead fun s _ => ?_
      split
      · trivial
      · refine writesRead fun s _ => ?_
        split
        · trivial
        · refine writesSave fun w mem => ?_
          simp only [Invitation.create] at created
          split at created <;> cases created
          rw [List.mem_singleton.mp mem]
          exact .invited rfl rfl token (.inr by_) rfl

theorem acceptInvitationMade {now : Instant} {tokenHash : String} {userId : UserId} {email : EmailAddress} :
    Writes kept (fun batch => ∃ s i, kept s ∧ findByTokenHash tokenHash s = some i ∧ i.isAcceptable now ∧ i.email = email ∧
        ∀ w ∈ batch, Made kept i.familyId fresh (Saves i.familyId batch) (· = userId) brings w)
      (acceptInvitation now tokenHash userId email fresh) := by
  unfold acceptInvitation
  refine writesRead fun s known => ?_
  split
  · trivial
  · rename_i invitation found
    split
    · split
      · trivial
      · split <;> trivial
    · split
      · trivial
      · split
        · trivial
        · rename_i own
          split
          · trivial
          · rename_i member made
            split
            · trivial
            · rename_i accepted ok
              have joins := invitedJoins made
              obtain ⟨same,status⟩ := acceptSource ok
              have live : invitation.isAcceptable now := by
                cases held : invitation.isAcceptable now with
                | true => rfl
                | false => simp [Invitation.accept,held] at ok
              refine writesSave ⟨s,invitation,known,found,live,(not_not.mp own).symm,fun w mem => ?_⟩
              simp only [List.mem_cons,List.not_mem_nil,or_false] at mem
              rcases mem with rfl | rfl | rfl
              · exact .enrolled joins.id joins.family (fun u is => Option.some.inj (is.symm.trans joins.user))
              · simp only [Invitation.accept,live,Bool.not_true,Bool.false_eq_true,if_false,Except.ok.injEq] at ok
                refine .answered known (List.mem_of_find?_eq_some found) rfl same (by rw [← ok]) (fun id is => ?_)
                  (by rw [status]; decide)
                refine .inr ⟨member,List.mem_cons_self,joins.id.trans ?_⟩
                rw [← ok] at is
                exact Option.some.inj is
              · exact .told rfl

theorem addMemberMade {adder : FamilyMemberId} {kind : MemberKind} {name : String} {birth : Option Instant} :
    Writes kept (fun batch => ∀ w ∈ batch, Made kept scope fresh (Saves scope batch) joins brings w)
      (addMember scope adder kind name birth fresh) := by
  unfold addMember
  split
  · trivial
  · rename_i member made
    have row : member.id = fresh ∧ member.familyId = scope ∧ member.userId = none := by
      simp only [FamilyMember.createUnlinked] at made
      split at made <;> cases made
      exact ⟨rfl,rfl,rfl⟩
    have enrolled (own : FamilyMemberId → Prop) : Made kept scope fresh own joins brings (.saveMember scope member) :=
      .enrolled row.1 row.2.1 (fun u is => by rw [row.2.2] at is; cases is)
    refine writesRead fun s known => ?_
    split
    · trivial
    · rename_i adder found
      simp only
      split
      · split
        · trivial
        · rename_i g established
          obtain ⟨there,own,family⟩ := findByIdSource found
          have links : g = ⟨fresh,scope,adder.id,fresh,none⟩ := by
            simp only [Guardianship.establish] at established
            split at established <;> try contradiction
            split at established <;> cases established
            rfl
          subst links
          refine writesSave fun w mem => ?_
          simp only [List.cons_append,List.nil_append,List.mem_cons,List.not_mem_nil,or_false] at mem
          rcases mem with rfl | rfl | rfl | rfl
          · exact enrolled _
          · exact .told rfl
          · exact .established rfl rfl (.inr ⟨s,known,adder,there,rfl,family⟩)
              (.inl ⟨member,List.mem_cons_self,row.1⟩)
          · exact .told rfl
      · refine writesSave fun w mem => ?_
        simp only [List.mem_cons,List.not_mem_nil,or_false] at mem
        rcases mem with rfl | rfl
        · exact enrolled _
        · exact .told rfl

theorem transferOwnershipMade {toMemberId : FamilyMemberId} :
    Writes kept (fun batch => ∀ w ∈ batch, Made kept scope fresh (Saves scope batch) joins brings w)
      (transferOwnership scope toMemberId) := by
  unfold transferOwnership
  refine writesRead fun s known => ?_
  split
  · trivial
  · rename_i newOwner found
    split
    · trivial
    · rename_i active
      have active : newOwner.isActive := by simpa using active
      refine writesRead fun t read => ?_
      split
      · trivial
      · rename_i currentOwner current
        split
        · trivial
        · split
          · trivial
          · rename_i promoted promote
            split
            · trivial
            · rename_i demoted demote
              obtain ⟨rfl,-⟩ := promoteSource promote
              obtain ⟨rfl,-⟩ := demoteSource demote
              obtain ⟨row,-,family⟩ := findByIdSource found
              have listed := List.mem_filter.mp (List.mem_of_find?_eq_some current)
              simp only [Bool.and_eq_true,decide_eq_true_eq] at listed
              refine writesSave fun w mem => ?_
              simp only [List.mem_cons,List.not_mem_nil,or_false] at mem
              rcases mem with rfl | rfl | rfl | rfl
              · exact .changed read listed.1 listed.2.1 listed.2.2 rfl listed.2.1 (fun u is => is)
              · exact .changed known row family active rfl family (fun u is => is)
              · exact .told rfl
              · exact .told rfl

theorem grantGuardianshipMade {child guardian : FamilyMemberId} :
    Writes kept (fun batch => ∀ w ∈ batch, Made kept scope fresh (Saves scope batch) joins brings w)
      (grantGuardianship scope child guardian fresh) := by
  unfold grantGuardianship
  refine writesRead fun s known => ?_
  split
  · trivial
  · rename_i child foundChild
    split
    · trivial
    · refine writesRead fun t read => ?_
      split
      · trivial
      · rename_i guardian found
        split
        · trivial
        · refine writesRead fun u _ => ?_
          split
          · trivial
          · split
            · trivial
            · rename_i g established
              obtain ⟨childRow,-,childFamily⟩ := findByIdSource foundChild
              obtain ⟨row,-,family⟩ := findByIdSource found
              have links : g = ⟨fresh,scope,guardian.id,child.id,none⟩ := by
                simp only [Guardianship.establish] at established
                split at established <;> try contradiction
                split at established <;> cases established
                rfl
              subst links
              refine writesSave fun w mem => ?_
              simp only [List.mem_cons,List.not_mem_nil,or_false] at mem
              rcases mem with rfl | rfl
              · exact .established rfl rfl (.inr ⟨t,read,guardian,row,rfl,family⟩)
                  (.inr ⟨s,known,child,childRow,rfl,childFamily⟩)
              · exact .told rfl

theorem endGuardianshipMade {now : Instant} {child guardian : FamilyMemberId} :
    Writes kept (fun batch => ∀ w ∈ batch, Made kept scope fresh (Saves scope batch) joins brings w)
      (endGuardianship now scope child guardian) := by
  unfold endGuardianship
  refine writesRead fun s known => ?_
  split
  · trivial
  · rename_i g found
    refine writesRead fun t _ => ?_
    split
    · trivial
    · have source := List.find?_some found
      simp only [Bool.and_eq_true,decide_eq_true_eq] at source
      refine writesSave fun w mem => ?_
      rw [List.mem_singleton.mp mem]
      exact .finished known (List.mem_of_find?_eq_some found) source.1.1.1

theorem revokedMade {s : Store} {i revoked : Invitation} {now : Instant} (known : kept s)
    (there : i ∈ s.invitations.rows) (family : i.familyId = scope) (ok : i.revoke now = .ok revoked) :
    Made kept scope fresh own joins brings (.saveInvitation scope revoked) := by
  obtain ⟨same,status⟩ := revokeSource ok
  simp only [Invitation.revoke] at ok
  split at ok <;> cases ok
  exact .answered known there family same rfl (fun id is => .inl is) (by simp)

theorem revokeInvitationMade {now : Instant} {invitationId : InvitationId} :
    Writes kept (fun batch => ∀ w ∈ batch, Made kept scope fresh (Saves scope batch) joins brings w)
      (revokeInvitation now scope invitationId) := by
  unfold revokeInvitation
  refine writesRead fun s known => ?_
  split
  · trivial
  · rename_i invitation found
    split
    · trivial
    · rename_i revoked ok
      obtain ⟨row,family⟩ := Option.filter_eq_some_iff.mp found
      refine writesSave fun w mem => ?_
      rw [List.mem_singleton.mp mem]
      exact revokedMade known (Table.findSource row).1 (by simpa using family) ok

theorem requestFamilyDeletionMade {now : Instant} {requestedBy : FamilyMemberId} :
    Writes kept (fun batch => ∀ w ∈ batch, Made kept scope fresh (Saves scope batch) joins brings w)
      (requestFamilyDeletion now scope requestedBy) := by
  unfold requestFamilyDeletion
  refine writesRead fun s known => ?_
  split
  · trivial
  · rename_i family found
    have same : (family.requestDeletion now).id = family.id := by
      unfold Family.requestDeletion
      split <;> rfl
    simp only
    split
    · refine writesSave fun w mem => ?_
      rw [List.mem_singleton.mp mem]
      exact .family known found same
    · refine writesRead fun t read => writesSave fun w mem => ?_
      rcases List.mem_append.mp mem with written | last
      · rcases List.mem_cons.mp written with rfl | voided
        · exact .family known found same
        · obtain ⟨revoked,source,rfl⟩ := List.mem_map.mp voided
          obtain ⟨invitation,listed,pending⟩ := List.mem_filterMap.mp source
          split at pending
          · have there := List.mem_filter.mp (List.mem_reverse.mp listed)
            cases ok : invitation.revoke now with
            | error e =>
              rw [ok] at pending
              cases pending
            | ok next =>
              rw [ok] at pending
              cases pending
              exact revokedMade read there.1 (by simpa using there.2) ok
          · cases pending
      · rw [List.mem_singleton.mp last]
        exact .told rfl

end
end FamilyPlatform.Membership
