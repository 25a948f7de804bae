import FamilyPlatform.Membership.Made

/-! Rows that name members. A foreign key asks for a member of that id in any family; that it
is one of the row's own family is left to the commands. -/
namespace FamilyPlatform.Membership

def MemberOf (s : Store) (familyId : FamilyId) (id : FamilyMemberId) : Prop :=
  ∃ r ∈ s.members.rows, r.id = id ∧ r.familyId = familyId

structure Linked (members : FamilyId → FamilyMemberId → Prop) (s : Store) : Prop where
  guardianships : ∀ g ∈ s.guardianships.rows, members g.familyId g.guardianMemberId ∧ members g.familyId g.childMemberId
  invitations : ∀ i ∈ s.invitations.rows, members i.familyId i.invitedByMemberId ∧
    ∀ id ∈ i.acceptedByMemberId, members i.familyId id

theorem Linked.mono {members others : FamilyId → FamilyMemberId → Prop} {s : Store} (linked : Linked members s)
    (more : ∀ familyId id, members familyId id → others familyId id) : Linked others s :=
  ⟨fun g mem => ⟨more _ _ (linked.guardianships g mem).1,more _ _ (linked.guardianships g mem).2⟩,
    fun i mem => ⟨more _ _ (linked.invitations i mem).1,fun id is => more _ _ ((linked.invitations i mem).2 id is)⟩⟩

def Lasts (s t : Store) : Prop := ∀ familyId id, MemberOf s familyId id → MemberOf t familyId id

theorem statementLasts {w : Statement} {s t : Store} (applied : apply w s = some t) : Lasts s t := by
  have unchanged (same : t.members = s.members) : Lasts s t := by
    intro familyId id is
    unfold MemberOf
    rwa [same]
  cases w with
  | saveFamily scope f => exact unchanged (familySaved applied).2.1
  | saveGuardianship scope g => exact unchanged (guardianshipSaved applied).2.2.1
  | saveInvitation scope i => exact unchanged (invitationSaved applied).2.1
  | append e => exact unchanged (appended applied).2.1
  | saveMember scope m =>
    obtain ⟨rows,own,isolated,-⟩ := memberSaved applied
    rintro familyId id ⟨r,there,rfl,rfl⟩
    by_cases same : r.id = m.id
    · exact ⟨m,(rows m).mpr (.inr rfl),same.symm,own.trans (isolated r there same).symm⟩
    · exact ⟨r,(rows r).mpr (.inl ⟨there,same⟩),rfl,rfl⟩

section
variable {kept : Store → Prop} {scope : FamilyId} {fresh : Nat} {own : FamilyMemberId → Prop} {joins : UserId → Prop}
  {brings : String → Prop} {members : FamilyId → FamilyMemberId → Prop}

theorem linkedSaved (read : ∀ s, kept s → Linked members s ∧ ∀ id, MemberOf s scope id → members scope id)
    (owns : ∀ id, own id → members scope id) {v : Statement} (made : Made kept scope fresh own joins brings v)
    {s t : Store} (linked : Linked members s) (applied : apply v s = some t) : Linked members t := by
  have known {id : FamilyMemberId} (is : Known kept scope own id) : members scope id := by
    rcases is with mine | ⟨u,held,there⟩
    · exact owns id mine
    · exact (read u held).2 id there
  have unchanged (guardianships : t.guardianships = s.guardianships) (invitations : t.invitations = s.invitations) :
      Linked members t := ⟨guardianships ▸ linked.guardianships,invitations ▸ linked.invitations⟩
  cases made with
  | founded id number => exact unchanged (familySaved applied).2.2.1 (familySaved applied).2.2.2
  | family held found id => exact unchanged (familySaved applied).2.2.1 (familySaved applied).2.2.2
  | enrolled id family user => exact unchanged (memberSaved applied).2.2.2.2.1 (memberSaved applied).2.2.2.2.2
  | changed held there family active id same user =>
    exact unchanged (memberSaved applied).2.2.2.2.1 (memberSaved applied).2.2.2.2.2
  | told family => exact unchanged (appended applied).2.2 (appendedInvitations applied)
  | @established g id family guardian child =>
    obtain ⟨rows,-,-,invitations⟩ := guardianshipSaved applied
    refine ⟨fun x mem => ?_,invitations ▸ linked.invitations⟩
    rcases (rows x).mp mem with ⟨old,-⟩ | ⟨-,rfl⟩ | ⟨r,old,-,rfl⟩
    · exact linked.guardianships x old
    · exact family.symm ▸ ⟨known guardian,known child⟩
    · exact linked.guardianships r old
  | @finished u r now held there family =>
    obtain ⟨rows,-,-,invitations⟩ := guardianshipSaved applied
    refine ⟨fun x mem => ?_,invitations ▸ linked.invitations⟩
    rcases (rows x).mp mem with ⟨old,-⟩ | ⟨-,rfl⟩ | ⟨r,old,-,rfl⟩
    · exact linked.guardianships x old
    · exact (read u held).1.guardianships r there
    · exact linked.guardianships r old
  | invited id family token by_ nobody =>
    refine ⟨(invitationSaved applied).2.2 ▸ linked.guardianships,fun x mem => ?_⟩
    rcases invitationRows applied x mem with ⟨old,-⟩ | rfl
    · exact linked.invitations x old
    · exact family.symm ▸ ⟨known by_,fun id is => by rw [nobody] at is; cases is⟩
  | @answered u r i held there family same by_ who closed =>
    refine ⟨(invitationSaved applied).2.2 ▸ linked.guardianships,fun x mem => ?_⟩
    rcases invitationRows applied x mem with ⟨old,-⟩ | rfl
    · exact linked.invitations x old
    · obtain ⟨inviter,accepter⟩ := (read u held).1.invitations r there
      refine ⟨by rwa [by_,same.family],fun id is => ?_⟩
      rcases who id is with before | mine
      · exact same.family.symm ▸ accepter id before
      · exact same.family.symm ▸ family.symm ▸ owns id mine

end
end FamilyPlatform.Membership
