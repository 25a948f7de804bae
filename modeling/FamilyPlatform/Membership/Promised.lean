import FamilyPlatform.Membership.Rely

/-! Every commit of every family command has one of the promised shapes, whatever the
other calls commit between its reads. -/
namespace FamilyPlatform.Membership
open Interleaving (Holds)

theorem failHolds {i : Nat} {e : DomainError} {s : Store} : Holds discipline i (fail e) s := trivial

theorem saveHolds {i : Nat} {batch : List Statement} {reply : Reply} {s : Store}
    (promise : ∀ t, Later i s t → Promise i t batch) : Holds discipline i (save batch reply) s :=
  fun _ t _ _ later => ⟨promise t later,fun _ _ => trivial⟩

theorem readHolds {i : Nat} {next : Store → Script} {s : Store}
    (after : ∀ t, Later i s t → Holds discipline i (next t) t) :
    Holds discipline i (.read next) s :=
  Interleaving.holdsRead fun _ t _ _ later => after t later

theorem coverEachHolds {i : Nat} {familyId : FamilyId} {next : Script} {children : List FamilyMemberId}
    {s : Store} (after : ∀ t, Later i s t → Holds discipline i next t) :
    Holds discipline i (coverEach familyId next children) s := by
  induction children generalizing s with
  | nil => exact after s (.refl i s)
  | cons childId rest ih =>
    refine readHolds fun t later => ?_
    split
    · exact failHolds
    · exact ih fun u read => after u (later.trans read)

theorem findEachHolds {i : Nat} {familyId : FamilyId} {guardian : FamilyMemberId}
    {next : List Guardianship → Script} {children : List FamilyMemberId} {found : List Guardianship}
    {s : Store} (base : ∀ g ∈ found, GuardianshipKept s g ∧ g.guardianMemberId = guardian)
    (after : ∀ t gs, Later i s t → (∀ g ∈ gs, GuardianshipKept t g ∧ g.guardianMemberId = guardian) →
      Holds discipline i (next gs) t) :
    Holds discipline i (findEach familyId guardian next children found) s := by
  induction children generalizing found s with
  | nil => exact after s found (.refl i s) base
  | cons childId rest ih =>
    refine readHolds fun t later => ?_
    have kept : ∀ g ∈ found, GuardianshipKept t g ∧ g.guardianMemberId = guardian :=
      fun g mem => ⟨(base g mem).1.later later,(base g mem).2⟩
    have continued : ∀ u gs, Later i t u →
        (∀ g ∈ gs, GuardianshipKept u g ∧ g.guardianMemberId = guardian) →
        Holds discipline i (next gs) u := fun u gs read => after u gs (later.trans read)
    split
    · rename_i g read
      obtain ⟨there,same,-⟩ := findActiveSource read
      refine ih ?_ continued
      intro h mem
      rcases List.mem_append.mp mem with old | new
      · exact kept h old
      · rw [List.mem_singleton] at new
        subst h
        exact ⟨⟨g,there,rfl,rfl,rfl⟩,same⟩
    · exact ih kept continued

theorem emptyNumbered : Numbered 0 Store.empty :=
  ⟨fun _ mem => (List.not_mem_nil mem).elim,fun _ mem => (List.not_mem_nil mem).elim,
    fun _ mem => (List.not_mem_nil mem).elim⟩

theorem numberedFresh {n : Nat} {s : Store} (base : Numbered n s) : Fresh n s :=
  ⟨fun r mem => Nat.ne_of_lt (base.families r mem),fun r mem => Nat.ne_of_lt (base.members r mem),
    fun r mem => Nat.ne_of_lt (base.guardianships r mem)⟩

theorem createFamilyHolds {i : Nat} {ownerUserId : UserId} {ownerDisplayName name : String} {s : Store}
    (fresh : Fresh i s) : Holds discipline i (createFamily ownerUserId ownerDisplayName name i) s := by
  unfold createFamily
  split
  · exact failHolds
  · rename_i family created
    split
    · exact failHolds
    · rename_i owner made
      obtain ⟨id,member,owns⟩ := createOwnerSource made
      exact saveHolds fun t later =>
        .create [_,_] (later.fresh fresh) (familyCreateSource created) id member owns

theorem createInvitationHolds {i : Nat} {now familyId invitedBy email role existing tokenHash s} :
    Holds discipline i (createInvitation now familyId invitedBy email role existing tokenHash i) s := by
  unfold createInvitation
  split
  · exact failHolds
  · refine readHolds fun t later => ?_
    split
    · exact failHolds
    · refine readHolds fun t later => ?_
      split
      · exact failHolds
      · refine readHolds fun t later => ?_
        split
        · exact failHolds
        · exact saveHolds fun t later => .invite

theorem acceptInvitationHolds {i : Nat} {now tokenHash userId email} {s : Store} (fresh : Fresh i s) :
    Holds discipline i (acceptInvitation now tokenHash userId email i) s := by
  unfold acceptInvitation
  refine readHolds fun t later => ?_
  split
  · exact failHolds
  · rename_i invitation found
    split
    · split
      · exact failHolds
      · split
        · exact failHolds
        · trivial
    · split
      · exact failHolds
      · split
        · exact failHolds
        · split
          · exact failHolds
          · rename_i member made
            obtain ⟨id,kind,role⟩ := createFromInvitationSource made
            split
            · exact failHolds
            · exact saveHolds fun u read => .enrol [_] [_]
                (read.fresh (later.fresh fresh)) id (by simp [FamilyMember.isOwner,role])
                (by simp [isActiveChild,kind])

theorem addMemberHolds {i : Nat} {familyId adder kind name birth} {s : Store} (fresh : Fresh i s) :
    Holds discipline i (addMember familyId adder kind name birth i) s := by
  unfold addMember
  split
  · exact failHolds
  · rename_i member made
    obtain ⟨id,same,role⟩ := createUnlinkedSource made
    refine readHolds fun t later => ?_
    split
    · exact failHolds
    · rename_i adder found
      split
      · split
        · exact failHolds
        · rename_i guardianship established
          obtain ⟨own,child,active⟩ := establishSource established
          exact saveHolds fun u read => .addChild [_] [_]
            (read.fresh (later.fresh fresh)) id (by simp [FamilyMember.isOwner,role]) own child active
      · rename_i adult
        exact saveHolds fun u read => .enrol [] [_]
          (read.fresh (later.fresh fresh)) id (by simp [FamilyMember.isOwner,role])
          (by simp [isActiveChild,same,adult])

theorem saveRoleChangeHolds {i : Nat} {now familyId newRole} {member : FamilyMember}
    {gs : List Guardianship} {s : Store} (kept : MemberKept s member.id)
    (each : ∀ g ∈ gs, GuardianshipKept s g ∧ g.guardianMemberId = member.id) :
    Holds discipline i (saveRoleChange now familyId member newRole gs) s := by
  unfold saveRoleChange
  split
  · exact failHolds
  · rename_i changed ok
    obtain ⟨rfl,kind,role,-⟩ := changeRoleSource ok
    exact saveHolds fun t later => .withdraw [_] (kept.later later)
      (by simp [FamilyMember.isOwner,role]) (by simp [isActiveChild,kind])
      (fun g mem => ⟨(each g mem).1.later later,(each g mem).2⟩)

theorem changeMemberRoleHolds {i : Nat} {now familyId memberId newRole} {s : Store} :
    Holds discipline i (changeMemberRole now familyId memberId newRole) s := by
  unfold changeMemberRole
  refine readHolds fun t later => ?_
  split
  · exact failHolds
  · rename_i member found
    have kept : MemberKept t member.id := ⟨member,(findByIdSource found).1,rfl⟩
    split
    · exact failHolds
    · split
      · exact readHolds fun u listed => coverEachHolds fun v counted =>
          findEachHolds (by simp) fun w gs read each =>
            saveRoleChangeHolds (kept.later ((listed.trans counted).trans read)) each
      · exact saveRoleChangeHolds kept (by simp)

theorem removeMemberHolds {i : Nat} {now familyId memberId} {s : Store} :
    Holds discipline i (removeMember now familyId memberId) s := by
  unfold removeMember
  refine readHolds fun t later => ?_
  split
  · exact failHolds
  · rename_i member found
    have kept : MemberKept t member.id := ⟨member,(findByIdSource found).1,rfl⟩
    have gone := removeSource member now
    split
    · exact failHolds
    · split
      · exact failHolds
      · exact readHolds fun u listed => coverEachHolds fun v counted =>
          findEachHolds (by simp) fun w gs read each => saveHolds fun x last =>
            .withdraw [_] (kept.later (((listed.trans counted).trans read).trans last))
              (by simp [FamilyMember.isOwner,gone]) (by simp [isActiveChild,gone])
              (fun g mem => ⟨(each g mem).1.later last,(each g mem).2⟩)

theorem transferOwnershipHolds {i : Nat} {familyId toMemberId} {s : Store} :
    Holds discipline i (transferOwnership familyId toMemberId) s := by
  unfold transferOwnership
  refine readHolds fun t later => ?_
  split
  · exact failHolds
  · rename_i newOwner found
    obtain ⟨there,same,-⟩ := findByIdSource found
    split
    · exact failHolds
    · rename_i active
      refine readHolds fun u listed => ?_
      split
      · exact failHolds
      · rename_i currentOwner read
        have present : currentOwner ∈ u.members.rows :=
          List.mem_of_mem_filter (List.mem_of_find?_eq_some read)
        split
        · exact failHolds
        · split
          · exact failHolds
          · rename_i promoted ok
            obtain ⟨rfl,adult⟩ := promoteSource ok
            split
            · exact failHolds
            · rename_i demoted ok'
              obtain ⟨rfl,owner⟩ := demoteSource ok'
              have checks := u.legal.members currentOwner present
              refine saveHolds fun v saved => .transfer [_,_]
                (MemberKept.later ⟨currentOwner,present,rfl⟩ saved)
                (MemberKept.later ⟨newOwner,there,rfl⟩ (listed.trans saved))
                ?_ (by simp [FamilyMember.isOwner])
                (by simp [isActiveChild,(checks.2.2.1 owner).2])
              simpa [FamilyMember.isOwner,FamilyMember.isActive] using active

theorem grantGuardianshipHolds {i : Nat} {familyId child guardian} {s : Store} (fresh : Fresh i s) :
    Holds discipline i (grantGuardianship familyId child guardian i) s := by
  unfold grantGuardianship
  refine readHolds fun t later => ?_
  split
  · exact failHolds
  · split
    · exact failHolds
    · refine readHolds fun u read => ?_
      split
      · exact failHolds
      · split
        · exact failHolds
        · refine readHolds fun v saved => ?_
          split
          · trivial
          · split
            · exact failHolds
            · rename_i established ok
              obtain ⟨own,-,active⟩ := establishSource ok
              exact saveHolds fun w last => .grant [_]
                ((((later.trans read).trans saved).trans last).fresh fresh) own active

theorem endGuardianshipHolds {i : Nat} {now familyId child guardian} {s : Store} :
    Holds discipline i (endGuardianship now familyId child guardian) s := by
  unfold endGuardianship
  refine readHolds fun t later => ?_
  split
  · exact failHolds
  · rename_i guardianship found
    obtain ⟨there,-,-⟩ := findActiveSource found
    refine readHolds fun u read => ?_
    split
    · exact failHolds
    · exact saveHolds fun v saved =>
        .finish (GuardianshipKept.later ⟨guardianship,there,rfl,rfl,rfl⟩ (read.trans saved))

theorem commandsHold (n : Nat) (s : Store) (call : Call) (good : discipline.good n s) :
    Holds discipline n (commands.start call n) s := by
  have fresh : Fresh n s := numberedFresh good
  change Holds discipline n (start call n) s
  cases call <;> simp only [start]
  case createFamily => exact createFamilyHolds fresh
  case createInvitation => exact createInvitationHolds
  case acceptInvitation => exact acceptInvitationHolds fresh
  case addMember => exact addMemberHolds fresh
  case changeMemberRole => exact changeMemberRoleHolds
  case removeMember => exact removeMemberHolds
  case transferOwnership => exact transferOwnershipHolds
  case grantGuardianship => exact grantGuardianshipHolds fresh
  case endGuardianship => exact endGuardianshipHolds

end FamilyPlatform.Membership
