import Mathlib.Data.List.Find
import FamilyPlatform.Membership.Blind
import FamilyPlatform.Membership.Links

/-! The tables without one family. Rows of other families share no key, no token and no member
with it, so that whether a statement of theirs is accepted does not depend on it. -/
namespace FamilyPlatform.Membership

def withoutFamily (familyId : FamilyId) (t : Tables) : Tables where
  families := t.families.deleteWhere (fun f => f.id = familyId)
  members := t.members.deleteWhere (fun m => m.familyId = familyId)
  guardianships := t.guardianships.deleteWhere (fun g => g.familyId = familyId)
  invitations := t.invitations.deleteWhere (fun i => i.familyId = familyId)
  outbox := t.outbox.filter (fun e => e.familyId ≠ familyId)

section
variable {familyId : FamilyId} {t : Tables}

theorem memWithoutMembers {m : FamilyMember} :
    m ∈ (withoutFamily familyId t).members.rows ↔ m ∈ t.members.rows ∧ m.familyId ≠ familyId := by
  simp [withoutFamily,Table.deleteWhere]

theorem memWithoutFamilies {f : Family} :
    f ∈ (withoutFamily familyId t).families.rows ↔ f ∈ t.families.rows ∧ f.id ≠ familyId := by
  simp [withoutFamily,Table.deleteWhere]

theorem memWithoutGuardianships {g : Guardianship} :
    g ∈ (withoutFamily familyId t).guardianships.rows ↔ g ∈ t.guardianships.rows ∧ g.familyId ≠ familyId := by
  simp [withoutFamily,Table.deleteWhere]

theorem memWithoutInvitations {i : Invitation} :
    i ∈ (withoutFamily familyId t).invitations.rows ↔ i ∈ t.invitations.rows ∧ i.familyId ≠ familyId := by
  simp [withoutFamily,Table.deleteWhere]

theorem memPartMembers {m : FamilyMember} : m ∈ (partOf familyId t).members ↔ m ∈ t.members.rows ∧ m.familyId = familyId := by
  simp [partOf]

theorem memPartGuardianships {g : Guardianship} :
    g ∈ (partOf familyId t).guardianships ↔ g ∈ t.guardianships.rows ∧ g.familyId = familyId := by
  simp [partOf]

theorem memPartInvitations {i : Invitation} :
    i ∈ (partOf familyId t).invitations ↔ i ∈ t.invitations.rows ∧ i.familyId = familyId := by
  simp [partOf]

theorem partWithout {other : FamilyId} (apart : other ≠ familyId) : partOf other (withoutFamily familyId t) = partOf other t := by
  have both (a : FamilyId) : (decide (a = other) && !decide (a = familyId)) = decide (a = other) := by
    by_cases is : a = other
    · simp [is,apart]
    · simp [is]
  simp only [partOf,withoutFamily,Table.deleteWhere,List.filter_filter,Part.mk.injEq]
  simp [both]

end

def Away (p : Part) (id : FamilyMemberId) : Prop := ∀ m ∈ p.members, m.id ≠ id

structure Whole (p : Part) : Prop where
  guardianships : ∀ g ∈ p.guardianships, ¬ Away p g.guardianMemberId ∧ ¬ Away p g.childMemberId
  invitations : ∀ i ∈ p.invitations, ¬ Away p i.invitedByMemberId ∧ ∀ id ∈ i.acceptedByMemberId, ¬ Away p id

/- The rows of other families have keys and tokens of their own, and name none of its members. -/
structure Foreign (familyId : FamilyId) (p : Part) (t : Tables) : Prop where
  members : ∀ m ∈ t.members.rows, m.familyId ≠ familyId → Away p m.id
  guardianships : ∀ g ∈ t.guardianships.rows, g.familyId ≠ familyId → (∀ x ∈ p.guardianships, x.id ≠ g.id) ∧
    Away p g.guardianMemberId ∧ Away p g.childMemberId
  invitations : ∀ i ∈ t.invitations.rows, i.familyId ≠ familyId → (∀ x ∈ p.invitations, x.id ≠ i.id ∧ x.tokenHash ≠ i.tokenHash) ∧
    Away p i.invitedByMemberId ∧ ∀ id ∈ i.acceptedByMemberId, Away p id

section
variable {familyId : FamilyId} {s : Store} (linked : Linked (MemberOf s) s)
include linked

theorem linkedWhole : Whole (partOf familyId s.toTables) := by
  have named {own : FamilyId} {id : FamilyMemberId} (is : MemberOf s own id) (same : own = familyId) :
      ¬ Away (partOf familyId s.toTables) id := by
    obtain ⟨r,there,rfl,rfl⟩ := is
    exact fun away => away r (memPartMembers.mpr ⟨there,same⟩) rfl
  refine ⟨fun g mem => ?_,fun i mem => ?_⟩
  · obtain ⟨there,same⟩ := memPartGuardianships.mp mem
    exact ⟨named (linked.guardianships g there).1 same,named (linked.guardianships g there).2 same⟩
  · obtain ⟨there,same⟩ := memPartInvitations.mp mem
    exact ⟨named (linked.invitations i there).1 same,fun id is => named ((linked.invitations i there).2 id is) same⟩

theorem linkedForeign : Foreign familyId (partOf familyId s.toTables) s.toTables := by
  have away {own : FamilyId} {id : FamilyMemberId} (is : MemberOf s own id) (other : own ≠ familyId) :
      Away (partOf familyId s.toTables) id := by
    obtain ⟨r,there,rfl,rfl⟩ := is
    intro m mem same
    obtain ⟨row,own⟩ := memPartMembers.mp mem
    exact other (Table.equalOfKey row there same ▸ own)
  refine ⟨fun m there other => away ⟨m,there,rfl,rfl⟩ other,fun g there other => ⟨fun x mem same => ?_,
    away (linked.guardianships g there).1 other,away (linked.guardianships g there).2 other⟩,fun i there other =>
    ⟨fun x mem => ⟨fun same => ?_,fun same => ?_⟩,away (linked.invitations i there).1 other,
      fun id is => away ((linked.invitations i there).2 id is) other⟩⟩
  · obtain ⟨row,own⟩ := memPartGuardianships.mp mem
    exact other (Table.equalOfKey row there same ▸ own)
  · obtain ⟨row,own⟩ := memPartInvitations.mp mem
    exact other (Table.equalOfKey row there same ▸ own)
  · obtain ⟨row,own⟩ := memPartInvitations.mp mem
    exact other (Table.equalOfKey row there (s.legal.tokenHash x row i there same) ▸ own)

end

section
variable {familyId : FamilyId} {s : Store} {t : Tables} (part : partOf familyId t = partOf familyId s.toTables)
include part

theorem rowOfMember {m : FamilyMember} (mem : m ∈ t.members.rows) (own : m.familyId = familyId) :
    m ∈ s.members.rows := by
  have listed := memPartMembers.mpr ⟨mem,own⟩
  rw [part] at listed
  exact (memPartMembers.mp listed).1

theorem partGuardianship {g : Guardianship} (mem : g ∈ t.guardianships.rows) (own : g.familyId = familyId) :
    g ∈ (partOf familyId s.toTables).guardianships := part ▸ memPartGuardianships.mpr ⟨mem,own⟩

theorem partInvitation {i : Invitation} (mem : i ∈ t.invitations.rows) (own : i.familyId = familyId) :
    i ∈ (partOf familyId s.toTables).invitations := part ▸ memPartInvitations.mpr ⟨mem,own⟩

theorem presentMember {id : FamilyMemberId} (named : ¬ Away (partOf familyId s.toTables) id) :
    (t.members.find id).isSome := by
  simp only [Away,not_forall,not_not] at named
  obtain ⟨m,listed,is⟩ := named
  rw [← part] at listed
  exact Table.hasRow.mpr ⟨m,(memPartMembers.mp listed).1,is⟩

theorem presentFamily {own : FamilyId} (same : own = familyId) (is : (s.families.find own).isSome) :
    (t.families.find own).isSome := by
  obtain ⟨f,there,id⟩ := Table.hasRow.mp is
  have listed : f ∈ (partOf familyId s.toTables).families := List.mem_filter.mpr ⟨there,by simp [id,same]⟩
  rw [← part] at listed
  exact Table.hasRow.mpr ⟨f,(List.mem_filter.mp listed).1,id⟩

theorem membersTogether {P : FamilyMember → FamilyMember → Prop}
    (own : ∀ a ∈ s.members.rows, ∀ b ∈ s.members.rows, a.familyId = b.familyId → P a b)
    (others : ∀ a ∈ (withoutFamily familyId t).members.rows, ∀ b ∈ (withoutFamily familyId t).members.rows,
      a.familyId = b.familyId → P a b) :
    ∀ a ∈ t.members.rows, ∀ b ∈ t.members.rows, a.familyId = b.familyId → P a b := by
  intro a left b right same
  by_cases is : a.familyId = familyId
  · exact own a (rowOfMember part left is) b (rowOfMember part right (same ▸ is)) same
  · exact others a (memWithoutMembers.mpr ⟨left,is⟩) b (memWithoutMembers.mpr ⟨right,same ▸ is⟩) same

theorem pendingTogether (legal : Legal (withoutFamily familyId t)) :
    InvitationOnePendingPerEmail t.invitations.rows := by
  intro a left b right pa pb email same
  by_cases is : a.familyId = familyId
  · exact s.legal.onePending a (memPartInvitations.mp (partInvitation part left is)).1 b
      (memPartInvitations.mp (partInvitation part right (same ▸ is))).1 pa pb email same
  · exact legal.onePending a (memWithoutInvitations.mpr ⟨left,is⟩) b
      (memWithoutInvitations.mpr ⟨right,same ▸ is⟩) pa pb email same

theorem checksTogether (legal : Legal (withoutFamily familyId t)) :
    (∀ m ∈ t.members.rows, FamilyMemberChecks m) ∧ ∀ i ∈ t.invitations.rows, InvitationRoleIsNotOwner i := by
  refine ⟨fun m mem => ?_,fun i mem => ?_⟩
  · by_cases is : m.familyId = familyId
    · exact s.legal.members m (rowOfMember part mem is)
    · exact legal.members m (memWithoutMembers.mpr ⟨mem,is⟩)
  · by_cases is : i.familyId = familyId
    · exact s.legal.invitations i (memPartInvitations.mp (partInvitation part mem is)).1
    · exact legal.invitations i (memWithoutInvitations.mpr ⟨mem,is⟩)

theorem referencesTogether (whole : Whole (partOf familyId s.toTables))
    (references : References (withoutFamily familyId t)) : References t := by
  have family {m : FamilyId} (is : ((withoutFamily familyId t).families.find m).isSome) :
      (t.families.find m).isSome := by
    obtain ⟨f,there,id⟩ := Table.hasRow.mp is
    exact Table.hasRow.mpr ⟨f,(memWithoutFamilies.mp there).1,id⟩
  have kept {id : FamilyMemberId} (is : ((withoutFamily familyId t).members.find id).isSome) :
      (t.members.find id).isSome := by
    obtain ⟨m,there,same⟩ := Table.hasRow.mp is
    exact Table.hasRow.mpr ⟨m,(memWithoutMembers.mp there).1,same⟩
  refine ⟨fun m mem => ?_,fun g mem => ?_,fun i mem => ?_⟩
  · by_cases is : m.familyId = familyId
    · exact presentFamily part is (s.legal.references.1 m (rowOfMember part mem is))
    · exact family (references.1 m (memWithoutMembers.mpr ⟨mem,is⟩))
  · by_cases is : g.familyId = familyId
    · have listed := partGuardianship part mem is
      obtain ⟨guardian,child⟩ := whole.guardianships g listed
      exact ⟨presentFamily part is (s.legal.references.2.1 g (memPartGuardianships.mp listed).1).1,
        presentMember part guardian,presentMember part child⟩
    · obtain ⟨own,guardian,child⟩ := references.2.1 g (memWithoutGuardianships.mpr ⟨mem,is⟩)
      exact ⟨family own,kept guardian,kept child⟩
  · by_cases is : i.familyId = familyId
    · have listed := partInvitation part mem is
      obtain ⟨inviter,accepter⟩ := whole.invitations i listed
      exact ⟨presentFamily part is (s.legal.references.2.2 i (memPartInvitations.mp listed).1).1,
        presentMember part inviter,fun id named => presentMember part (accepter id named)⟩
    · obtain ⟨own,inviter,accepter⟩ := references.2.2 i (memWithoutInvitations.mpr ⟨mem,is⟩)
      exact ⟨family own,kept inviter,fun id named => kept (accepter id named)⟩

variable (foreign : Foreign familyId (partOf familyId s.toTables) t)
include foreign

theorem tokensTogether (legal : Legal (withoutFamily familyId t)) : InvitationTokenHashKey t.invitations.rows := by
  intro a left b right token
  by_cases one : a.familyId = familyId <;> by_cases two : b.familyId = familyId
  · exact s.legal.tokenHash a (memPartInvitations.mp (partInvitation part left one)).1 b
      (memPartInvitations.mp (partInvitation part right two)).1 token
  · exact absurd token ((foreign.invitations b right two).1 a (partInvitation part left one)).2
  · exact absurd token.symm ((foreign.invitations a left one).1 b (partInvitation part right two)).2
  · exact legal.tokenHash a (memWithoutInvitations.mpr ⟨left,one⟩) b (memWithoutInvitations.mpr ⟨right,two⟩) token

theorem pairsTogether (whole : Whole (partOf familyId s.toTables)) (legal : Legal (withoutFamily familyId t)) :
    GuardianshipOneActivePerPair t.guardianships.rows := by
  intro a left b right pa pb guardian child
  by_cases one : a.familyId = familyId <;> by_cases two : b.familyId = familyId
  · exact s.legal.onePair a (memPartGuardianships.mp (partGuardianship part left one)).1 b
      (memPartGuardianships.mp (partGuardianship part right two)).1 pa pb guardian child
  · exact absurd (guardian ▸ (foreign.guardianships b right two).2.1)
      (whole.guardianships a (partGuardianship part left one)).1
  · exact absurd (guardian ▸ (foreign.guardianships a left one).2.1)
      (whole.guardianships b (partGuardianship part right two)).1
  · exact legal.onePair a (memWithoutGuardianships.mpr ⟨left,one⟩) b (memWithoutGuardianships.mpr ⟨right,two⟩)
      pa pb guardian child

theorem withoutLegal (legal : Legal t) : Legal (withoutFamily familyId t) := by
  have family {m : FamilyId} (other : m ≠ familyId) (is : (t.families.find m).isSome) :
      ((withoutFamily familyId t).families.find m).isSome := by
    obtain ⟨f,there,rfl⟩ := Table.hasRow.mp is
    exact Table.hasRow.mpr ⟨f,memWithoutFamilies.mpr ⟨there,other⟩,rfl⟩
  have kept {id : FamilyMemberId} (away : Away (partOf familyId s.toTables) id) (is : (t.members.find id).isSome) :
      ((withoutFamily familyId t).members.find id).isSome := by
    obtain ⟨m,there,rfl⟩ := Table.hasRow.mp is
    exact Table.hasRow.mpr ⟨m,memWithoutMembers.mpr ⟨there,fun own => away m
      (part ▸ memPartMembers.mpr ⟨there,own⟩) rfl⟩,rfl⟩
  refine ⟨?_,?_,?_,?_,?_,?_,?_,?_,?_,?_⟩
  · exact fun a left b right => legal.oneOwner a (memWithoutMembers.mp left).1 b (memWithoutMembers.mp right).1
  · exact fun a left b right => legal.onePerUser a (memWithoutMembers.mp left).1 b (memWithoutMembers.mp right).1
  · exact fun a left b right => legal.onePending a (memWithoutInvitations.mp left).1 b (memWithoutInvitations.mp right).1
  · exact fun a left b right => legal.tokenHash a (memWithoutInvitations.mp left).1 b (memWithoutInvitations.mp right).1
  · exact fun a left b right => legal.onePair a (memWithoutGuardianships.mp left).1 b (memWithoutGuardianships.mp right).1
  · exact fun m mem => legal.members m (memWithoutMembers.mp mem).1
  · exact fun i mem => legal.invitations i (memWithoutInvitations.mp mem).1
  · intro m mem
    obtain ⟨there,other⟩ := memWithoutMembers.mp mem
    exact family other (legal.references.1 m there)
  · intro g mem
    obtain ⟨there,other⟩ := memWithoutGuardianships.mp mem
    obtain ⟨is,guardian,child⟩ := legal.references.2.1 g there
    obtain ⟨-,one,two⟩ := foreign.guardianships g there other
    exact ⟨family other is,kept one guardian,kept two child⟩
  · intro i mem
    obtain ⟨there,other⟩ := memWithoutInvitations.mp mem
    obtain ⟨is,inviter,accepter⟩ := legal.references.2.2 i there
    obtain ⟨-,one,two⟩ := foreign.invitations i there other
    exact ⟨family other is,kept one inviter,fun id named => kept (two id named) (accepter id named)⟩

theorem legalTogether (whole : Whole (partOf familyId s.toTables)) (legal : Legal (withoutFamily familyId t)) :
    Legal t where
  oneOwner a left b right pa pb same :=
    membersTogether part (fun a left b right same pa pb => s.legal.oneOwner a left b right pa pb same)
      (fun a left b right same pa pb => legal.oneOwner a left b right pa pb same) a left b right same pa pb
  onePerUser a left b right pa pb some_ users same :=
    membersTogether part (fun a left b right same pa pb some_ users =>
        s.legal.onePerUser a left b right pa pb some_ users same)
      (fun a left b right same pa pb some_ users => legal.onePerUser a left b right pa pb some_ users same)
      a left b right same pa pb some_ users
  onePending := pendingTogether part legal
  tokenHash := tokensTogether part foreign legal
  onePair := pairsTogether part foreign whole legal
  members := (checksTogether part legal).1
  invitations := (checksTogether part legal).2
  references := referencesTogether part whole legal.references

theorem legalWithout (whole : Whole (partOf familyId s.toTables)) : Legal t ↔ Legal (withoutFamily familyId t) :=
  ⟨withoutLegal part foreign,legalTogether part foreign whole⟩

end

def Outward (familyId : FamilyId) (p : Part) : Statement → Prop
  | .saveFamily scope _ => scope ≠ familyId
  | .saveMember scope m => scope ≠ familyId ∧ Away p m.id
  | .saveGuardianship scope g => scope ≠ familyId ∧ (∀ x ∈ p.guardianships, x.id ≠ g.id) ∧ Away p g.guardianMemberId ∧
      Away p g.childMemberId
  | .saveInvitation scope i => scope ≠ familyId ∧ (∀ x ∈ p.invitations, x.id ≠ i.id ∧ x.tokenHash ≠ i.tokenHash) ∧
      Away p i.invitedByMemberId ∧ ∀ id ∈ i.acceptedByMemberId, Away p id
  | .append e => e.familyId ≠ familyId

theorem isolatedWithout {Row : Type} {key : Row → Nat} {family : Row → FamilyId} {scope familyId : FamilyId}
    {t : Table Row key} {row : Row} (spared : ∀ r ∈ t.rows, key r = key row → family r ≠ familyId) :
    Isolated family scope (t.deleteWhere (fun r => family r = familyId)) row ↔ Isolated family scope t row := by
  refine and_congr_right (fun _ => ⟨fun own r there same => own r ?_ same,fun own r there same => own r ?_ same⟩)
  · exact List.mem_filter.mpr ⟨there,by simpa using spared r there same⟩
  · exact List.mem_of_mem_filter there

theorem upsertWithout {Row : Type} {key : Row → Nat} {family : Row → FamilyId} {familyId : FamilyId} {t : Table Row key}
    {row : Row} {f : Row → Row} {keeps : ∀ r, key (f r) = key r} (spared : ∀ r ∈ t.rows, key r = key row → family r ≠ familyId)
    (own : family row ≠ familyId) (stays : ∀ r, family (f r) = family r) :
    (t.upsert row f keeps).deleteWhere (fun r => family r = familyId) =
      (t.deleteWhere (fun r => family r = familyId)).upsert row f keeps := by
  refine Table.deleteUpsert t (by simpa using own) (fun r there same => ⟨by simpa using spared r there same,?_⟩)
  simpa [stays r] using spared r there same

/- A save into one of the tables leaves the rows of the family out, as they are left out before it. -/
theorem saveWithout {Row : Type} {key : Row → Nat} {family : Row → FamilyId} {familyId scope : FamilyId}
    {t : Table Row key} {row : Row} {f : Row → Row} {keeps : ∀ r, key (f r) = key r} (put put' : Table Row key → Tables)
    (spared : ∀ r ∈ t.rows, key r = key row → family r ≠ familyId) (apart : scope ≠ familyId)
    (stays : ∀ r, family (f r) = family r)
    (puts : ∀ table, withoutFamily familyId (put table) = put' (table.deleteWhere (fun r => family r = familyId))) :
    (if Isolated family scope t row then some (put (t.upsert row f keeps)) else none).map (withoutFamily familyId) =
      if Isolated family scope (t.deleteWhere (fun r => family r = familyId)) row then
        some (put' ((t.deleteWhere (fun r => family r = familyId)).upsert row f keeps)) else none := by
  simp only [isolatedWithout spared]
  split
  · rename_i isolated
    rw [Option.map_some,puts,upsertWithout spared (isolated.1 ▸ apart) stays]
  · rfl

theorem writeWithout {familyId : FamilyId} {t : Tables} {w : Statement} (out : Outward familyId (partOf familyId t) w) :
    (write w t).map (withoutFamily familyId) = write w (withoutFamily familyId t) := by
  cases w with
  | append e =>
    have other : e.familyId ≠ familyId := out
    simp [write,withoutFamily,other]
  | saveFamily scope f =>
    by_cases own : f.id = scope
    · refine saveWithout (fun table => { t with families := table })
        (fun table => { withoutFamily familyId t with families := table })
        (fun r _ same => ?_) out (fun _ => rfl) (fun _ => rfl)
      rw [same,own]
      exact out
    · simp [write,Isolated,own]
  | saveMember scope m =>
    obtain ⟨apart,away⟩ := out
    exact saveWithout (fun table => { t with members := table })
      (fun table => { withoutFamily familyId t with members := table })
      (fun r there same own => away r (memPartMembers.mpr ⟨there,own⟩) same) apart (fun _ => rfl)
      (fun _ => rfl)
  | saveGuardianship scope g =>
    obtain ⟨apart,away,-⟩ := out
    exact saveWithout (fun table => { t with guardianships := table })
      (fun table => { withoutFamily familyId t with guardianships := table })
      (fun r there same own => away r (memPartGuardianships.mpr ⟨there,own⟩) same) apart (fun _ => rfl)
      (fun _ => rfl)
  | saveInvitation scope i =>
    obtain ⟨apart,away,-⟩ := out
    exact saveWithout (fun table => { t with invitations := table })
      (fun table => { withoutFamily familyId t with invitations := table })
      (fun r there same own => (away r (memPartInvitations.mpr ⟨there,own⟩)).1 same) apart
      (fun _ => rfl) (fun _ => rfl)

theorem outwardScope {familyId : FamilyId} {p : Part} {w : Statement} (out : Outward familyId p w) :
    ∃ scope, scope ≠ familyId ∧ InScope scope w := by
  cases w with
  | saveFamily scope f => exact ⟨scope,out,rfl⟩
  | saveMember scope m => exact ⟨scope,out.1,rfl⟩
  | saveGuardianship scope g => exact ⟨scope,out.1,rfl⟩
  | saveInvitation scope i => exact ⟨scope,out.1,rfl⟩
  | append e => exact ⟨e.familyId,out,rfl⟩

theorem writeForeign {familyId : FamilyId} {p : Part} {t next : Tables} {w : Statement} (out : Outward familyId p w)
    (foreign : Foreign familyId p t) (wrote : write w t = some next) : Foreign familyId p next := by
  cases w with
  | append e =>
    cases Option.some.inj wrote
    exact ⟨foreign.members,foreign.guardianships,foreign.invitations⟩
  | saveFamily scope f =>
    simp only [write] at wrote
    split at wrote <;> cases wrote
    exact ⟨foreign.members,foreign.guardianships,foreign.invitations⟩
  | saveMember scope m =>
    simp only [write] at wrote
    split at wrote <;> cases wrote
    refine ⟨fun x mem other => ?_,foreign.guardianships,foreign.invitations⟩
    rcases Table.memUpsert.mp mem with ⟨old,-⟩ | ⟨-,rfl⟩ | ⟨r,-,same,rfl⟩
    · exact foreign.members x old other
    · exact out.2
    · exact same.symm ▸ out.2
  | saveGuardianship scope g =>
    simp only [write] at wrote
    split at wrote <;> cases wrote
    refine ⟨foreign.members,fun x mem other => ?_,foreign.invitations⟩
    rcases Table.memUpsert.mp mem with ⟨old,-⟩ | ⟨-,rfl⟩ | ⟨r,old,-,rfl⟩
    · exact foreign.guardianships x old other
    · exact out.2
    · exact foreign.guardianships r old other
  | saveInvitation scope i =>
    simp only [write] at wrote
    split at wrote <;> cases wrote
    refine ⟨foreign.members,foreign.guardianships,fun x mem other => ?_⟩
    rcases Table.memUpsert.mp mem with ⟨old,-⟩ | ⟨-,rfl⟩ | ⟨r,-,same,rfl⟩
    · exact foreign.invitations x old other
    · exact out.2
    · exact same.symm ▸ out.2

theorem applyWithout {familyId : FamilyId} {s : Store} {w : Statement} (whole : Whole (partOf familyId s.toTables))
    (foreign : Foreign familyId (partOf familyId s.toTables) s.toTables) (out : Outward familyId (partOf familyId s.toTables) w) :
    (apply w s).map (fun t => withoutFamily familyId t.toTables) =
      (write w (withoutFamily familyId s.toTables)).filter (fun t => Legal t) := by
  rw [← writeWithout out]
  simp only [apply]
  cases wrote : write w s.toTables with
  | none => rfl
  | some next =>
    obtain ⟨scope,apart,bound⟩ := outwardScope out
    have legal := legalWithout (writeSpared apart bound wrote) (writeForeign out foreign wrote) whole
    by_cases is : Legal next
    · have without := legal.mp is
      simp [is,without,Option.filter]
    · have without : ¬ Legal (withoutFamily familyId next) := fun other => is (legal.mpr other)
      simp [is,without,Option.filter]

structure Beside (familyId : FamilyId) (p : Part) (s : Store) : Prop where
  part : partOf familyId s.toTables = p
  foreign : Foreign familyId p s.toTables

structure Twins (familyId : FamilyId) (p q : Part) (s t : Store) : Prop where
  same : withoutFamily familyId s.toTables = withoutFamily familyId t.toTables
  left : Beside familyId p s
  right : Beside familyId q t

section
variable {familyId : FamilyId} {p q : Part} {s t : Store}

theorem besideApplied {w : Statement} (out : Outward familyId p w) (beside : Beside familyId p s) (applied : apply w s = some t) :
    Beside familyId p t := by
  obtain ⟨scope,apart,bound⟩ := outwardScope out
  exact ⟨(partSpared apart bound applied).trans beside.part,writeForeign out beside.foreign (applySource applied)⟩

theorem twinsApply {w : Statement} (whole : Whole p ∧ Whole q) (out : Outward familyId p w ∧ Outward familyId q w)
    (twins : Twins familyId p q s t) : Option.Rel (Twins familyId p q) (apply w s) (apply w t) := by
  obtain ⟨same,⟨rfl,foreign⟩,⟨rfl,foreign'⟩⟩ := twins
  have one := applyWithout whole.1 foreign out.1
  have two := applyWithout whole.2 foreign' out.2
  rw [← same,← one] at two
  cases applied : apply w s with
  | none =>
    rw [applied,Option.map_none,Option.map_eq_none_iff] at two
    rw [two]
    exact .none
  | some next =>
    rw [applied,Option.map_some,Option.map_eq_some_iff] at two
    obtain ⟨next',applied',alike⟩ := two
    rw [applied']
    exact .some ⟨alike.symm,besideApplied out.1 ⟨rfl,foreign⟩ applied,besideApplied out.2 ⟨rfl,foreign'⟩ applied'⟩

theorem twinsPart (twins : Twins familyId p q s t) {other : FamilyId} (apart : other ≠ familyId) :
    partOf other t.toTables = partOf other s.toTables := by
  rw [← @partWithout familyId t.toTables other apart,← twins.same,partWithout apart]

theorem twinsForeign (twins : Twins familyId p q s t) : Foreign familyId q s.toTables := by
  obtain ⟨same,-,-,foreign⟩ := twins
  refine ⟨fun m there other => ?_,fun g there other => ?_,fun i there other => ?_⟩
  · exact foreign.members m (memWithoutMembers.mp (same ▸ memWithoutMembers.mpr ⟨there,other⟩)).1 other
  · exact foreign.guardianships g (memWithoutGuardianships.mp (same ▸ memWithoutGuardianships.mpr ⟨there,other⟩)).1 other
  · exact foreign.invitations i (memWithoutInvitations.mp (same ▸ memWithoutInvitations.mpr ⟨there,other⟩)).1 other

theorem twinsToken (twins : Twins familyId p q s t) {tokenHash : String} (unknown : ∀ i ∈ p.invitations, i.tokenHash ≠ tokenHash)
    (unknown' : ∀ i ∈ q.invitations, i.tokenHash ≠ tokenHash) : findByTokenHash tokenHash t = findByTokenHash tokenHash s := by
  have outside {p : Part} {u : Store} (beside : Beside familyId p u) (unknown : ∀ i ∈ p.invitations, i.tokenHash ≠ tokenHash) :
      findByTokenHash tokenHash u = (withoutFamily familyId u.toTables).invitations.rows.find? (fun i => i.tokenHash = tokenHash) := by
    simp only [findByTokenHash,withoutFamily,Table.deleteWhere,List.find?_filter]
    refine List.find?_congr (fun i there => ?_)
    by_cases own : i.familyId = familyId
    · have other := unknown i (beside.part ▸ memPartInvitations.mpr ⟨there,own⟩)
      simp [own,other]
    · simp [own]
  rw [outside twins.right unknown',outside twins.left unknown,twins.same]

theorem twinsMemberships (twins : Twins familyId p q s t) {userId : UserId}
    (stranger : ∀ m ∈ p.members, m.isActive → m.userId ≠ some userId)
    (stranger' : ∀ m ∈ q.members, m.isActive → m.userId ≠ some userId) :
    listMembershipsFor userId t = listMembershipsFor userId s := by
  have outside {p : Part} {u : Store} (beside : Beside familyId p u)
      (stranger : ∀ m ∈ p.members, m.isActive → m.userId ≠ some userId) :
      u.members.rows.filter (fun m => m.userId = some userId && m.isActive) =
        (withoutFamily familyId u.toTables).members.rows.filter (fun m => m.userId = some userId && m.isActive) := by
    simp only [withoutFamily,Table.deleteWhere,List.filter_filter]
    refine List.filter_congr (fun m there => ?_)
    by_cases own : m.familyId = familyId
    · have other := stranger m (beside.part ▸ memPartMembers.mpr ⟨there,own⟩)
      by_cases active : m.isActive
      · simp [own,other active]
      · simp [own,active]
    · simp [own]
  unfold listMembershipsFor
  rw [outside twins.right stranger',outside twins.left stranger,twins.same]
  refine List.filterMap_congr (fun m mem => ?_)
  have other := (memWithoutMembers.mp (List.mem_of_mem_filter mem)).2
  have current : t.families.find m.familyId = s.families.find m.familyId := samePartCurrent (twinsPart twins other)
  rw [current]

end
end FamilyPlatform.Membership
