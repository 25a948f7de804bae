import FamilyPlatform.Lib.Table
import FamilyPlatform.Lib.Interleaving
import FamilyPlatform.Membership.Domain

/-! The family tables. A statement that leaves a row outside the caller's family or
breaks a constraint of the schema is refused, and its whole transaction with it. -/
namespace FamilyPlatform.Membership

structure Tables where
  families : Table Family Family.id
  members : Table FamilyMember FamilyMember.id
  guardianships : Table Guardianship Guardianship.id
  invitations : Table Invitation Invitation.id
  outbox : List Event
  deriving DecidableEq

def FamilyOneOwner (rows : List FamilyMember) : Prop :=
  ∀ a ∈ rows, ∀ b ∈ rows, a.isOwner → b.isOwner → a.familyId = b.familyId → a.id = b.id

def FamilyMemberOnePerUser (rows : List FamilyMember) : Prop :=
  ∀ a ∈ rows, ∀ b ∈ rows, a.isActive → b.isActive → a.userId ≠ none → a.userId = b.userId →
    a.familyId = b.familyId → a.id = b.id

def InvitationOnePendingPerEmail (rows : List Invitation) : Prop :=
  ∀ a ∈ rows, ∀ b ∈ rows, a.status = .pending → b.status = .pending → a.email = b.email →
    a.familyId = b.familyId → a.id = b.id

def InvitationTokenHashKey (rows : List Invitation) : Prop :=
  ∀ a ∈ rows, ∀ b ∈ rows, a.tokenHash = b.tokenHash → a.id = b.id

def GuardianshipOneActivePerPair (rows : List Guardianship) : Prop :=
  ∀ a ∈ rows, ∀ b ∈ rows, a.isActive → b.isActive → a.guardianMemberId = b.guardianMemberId →
    a.childMemberId = b.childMemberId → a.id = b.id

def FamilyMemberChecks (m : FamilyMember) : Prop :=
  (m.kind = .child → m.userId = none) ∧ (m.kind = .child → m.role = .viewer) ∧
  (m.role = .owner → m.userId ≠ none ∧ m.kind = .adult) ∧
  (m.removedAt = none → m.displayName ≠ none)

def InvitationRoleIsNotOwner (i : Invitation) : Prop := i.proposedRole ≠ .owner

def References (t : Tables) : Prop :=
  (∀ m ∈ t.members.rows, (t.families.find m.familyId).isSome) ∧
  (∀ g ∈ t.guardianships.rows, (t.families.find g.familyId).isSome ∧
    (t.members.find g.guardianMemberId).isSome ∧ (t.members.find g.childMemberId).isSome) ∧
  ∀ i ∈ t.invitations.rows, (t.families.find i.familyId).isSome ∧
    (t.members.find i.invitedByMemberId).isSome ∧
    ∀ m ∈ i.acceptedByMemberId, (t.members.find m).isSome

instance (rows) : Decidable (FamilyOneOwner rows) := by unfold FamilyOneOwner; infer_instance
instance (rows) : Decidable (FamilyMemberOnePerUser rows) := by
  unfold FamilyMemberOnePerUser; infer_instance
instance (rows) : Decidable (InvitationOnePendingPerEmail rows) := by
  unfold InvitationOnePendingPerEmail; infer_instance
instance (rows) : Decidable (InvitationTokenHashKey rows) := by
  unfold InvitationTokenHashKey; infer_instance
instance (rows) : Decidable (GuardianshipOneActivePerPair rows) := by
  unfold GuardianshipOneActivePerPair; infer_instance
instance (m) : Decidable (FamilyMemberChecks m) := by unfold FamilyMemberChecks; infer_instance
instance (i) : Decidable (InvitationRoleIsNotOwner i) := by
  unfold InvitationRoleIsNotOwner; infer_instance
instance (t) : Decidable (References t) := by unfold References; infer_instance

structure Legal (t : Tables) : Prop where
  oneOwner : FamilyOneOwner t.members.rows
  onePerUser : FamilyMemberOnePerUser t.members.rows
  onePending : InvitationOnePendingPerEmail t.invitations.rows
  tokenHash : InvitationTokenHashKey t.invitations.rows
  onePair : GuardianshipOneActivePerPair t.guardianships.rows
  members : ∀ m ∈ t.members.rows, FamilyMemberChecks m
  invitations : ∀ i ∈ t.invitations.rows, InvitationRoleIsNotOwner i
  references : References t

instance (t) : Decidable (Legal t) :=
  decidable_of_iff
    (FamilyOneOwner t.members.rows ∧ FamilyMemberOnePerUser t.members.rows ∧
      InvitationOnePendingPerEmail t.invitations.rows ∧ InvitationTokenHashKey t.invitations.rows ∧
      GuardianshipOneActivePerPair t.guardianships.rows ∧ (∀ m ∈ t.members.rows, FamilyMemberChecks m) ∧
      (∀ i ∈ t.invitations.rows, InvitationRoleIsNotOwner i) ∧ References t)
    ⟨fun ⟨a,b,c,d,e,f,g,h⟩ => ⟨a,b,c,d,e,f,g,h⟩,fun h => ⟨h.1,h.2,h.3,h.4,h.5,h.6,h.7,h.8⟩⟩

/- A store that breaks a constraint cannot be built. -/
structure Store extends Tables where
  legal : Legal toTables

def Tables.empty : Tables := ⟨.empty,.empty,.empty,.empty,[]⟩
def Store.empty : Store := ⟨.empty,by decide⟩

/- Each statement carries the `app.family_id` of its transaction. -/
inductive Statement where
  | saveFamily (scope : FamilyId) (row : Family)
  | saveMember (scope : FamilyId) (row : FamilyMember)
  | saveGuardianship (scope : FamilyId) (row : Guardianship)
  | saveInvitation (scope : FamilyId) (row : Invitation)
  | append (event : Event)
  deriving DecidableEq, Repr

/- Row-level security: the row written and the row written over are of the family. -/
def Isolated {Row : Type} {key : Row → Nat} (family : Row → FamilyId) (scope : FamilyId)
    (t : Table Row key) (row : Row) : Prop :=
  family row = scope ∧ ∀ r ∈ t.rows, key r = key row → family r = scope

instance {Row : Type} {key : Row → Nat} (family : Row → FamilyId) (scope) (t : Table Row key) (row) :
    Decidable (Isolated family scope t row) := by unfold Isolated; infer_instance

/- An update never touches the identifiers, nor any field of a guardianship but its end. -/
def upsertFamily (t : Table Family Family.id) (f : Family) : Table Family Family.id :=
  t.upsert f (fun r => { f with id := r.id }) (fun _ => rfl)

def upsertMember (t : Table FamilyMember FamilyMember.id) (m : FamilyMember) :
    Table FamilyMember FamilyMember.id :=
  t.upsert m (fun r => { m with id := r.id, familyId := r.familyId }) (fun _ => rfl)

def upsertGuardianship (t : Table Guardianship Guardianship.id) (g : Guardianship) :
    Table Guardianship Guardianship.id :=
  t.upsert g (fun r => { r with endedAt := g.endedAt }) (fun _ => rfl)

def upsertInvitation (t : Table Invitation Invitation.id) (i : Invitation) :
    Table Invitation Invitation.id :=
  t.upsert i (fun r => { i with id := r.id, familyId := r.familyId }) (fun _ => rfl)

def write : Statement → Tables → Option Tables
  | .saveFamily scope f, t =>
    if Isolated Family.id scope t.families f then
      some { t with families := upsertFamily t.families f }
    else none
  | .saveMember scope m, t =>
    if Isolated FamilyMember.familyId scope t.members m then
      some { t with members := upsertMember t.members m }
    else none
  | .saveGuardianship scope g, t =>
    if Isolated Guardianship.familyId scope t.guardianships g then
      some { t with guardianships := upsertGuardianship t.guardianships g }
    else none
  | .saveInvitation scope i, t =>
    if Isolated Invitation.familyId scope t.invitations i then
      some { t with invitations := upsertInvitation t.invitations i }
    else none
  | .append e, t => some { t with outbox := t.outbox ++ [e] }

def apply (w : Statement) (s : Store) : Option Store := do
  let next ← write w s.toTables
  if legal : Legal next then some ⟨next,legal⟩ else none

theorem applySource {w : Statement} {s s' : Store} (applied : apply w s = some s') :
    write w s.toTables = some s'.toTables := by
  simp only [apply,bind,Option.bind_eq_some_iff] at applied
  obtain ⟨next,written,last⟩ := applied
  split at last <;> try contradiction
  cases Option.some.inj last
  exact written

theorem memberSaved {scope : FamilyId} {m : FamilyMember} {s s' : Store}
    (applied : apply (.saveMember scope m) s = some s') :
    (∀ x, x ∈ s'.members.rows ↔ (x ∈ s.members.rows ∧ x.id ≠ m.id) ∨ x = m) ∧
      m.familyId = scope ∧ (∀ r ∈ s.members.rows, r.id = m.id → r.familyId = scope) ∧
      s'.families = s.families ∧ s'.guardianships = s.guardianships ∧ s'.invitations = s.invitations := by
  have written := applySource applied
  simp only [write] at written
  split at written <;> try contradiction
  rename_i isolated
  have after := Option.some.inj written
  refine ⟨?_,isolated.1,isolated.2,by rw [← after],by rw [← after],by rw [← after]⟩
  intro x
  rw [← after]
  simp only [upsertMember,Table.memUpsert]
  constructor
  · rintro (old | ⟨-,rfl⟩ | ⟨r,mem,same,rfl⟩)
    · exact .inl old
    · exact .inr rfl
    · have family : r.familyId = m.familyId := (isolated.2 r mem same).trans isolated.1.symm
      exact .inr (by rw [same,family])
  · rintro (old | rfl)
    · exact .inl old
    · by_cases present : ∃ r ∈ s.members.rows, r.id = x.id
      · obtain ⟨r,mem,same⟩ := present
        have family : r.familyId = x.familyId := (isolated.2 r mem same).trans isolated.1.symm
        exact .inr (.inr ⟨r,mem,same,by rw [same,family]⟩)
      · exact .inr (.inl ⟨fun r mem same => present ⟨r,mem,same⟩,rfl⟩)

theorem guardianshipSaved {scope : FamilyId} {g : Guardianship} {s s' : Store}
    (applied : apply (.saveGuardianship scope g) s = some s') :
    (∀ x, x ∈ s'.guardianships.rows ↔ (x ∈ s.guardianships.rows ∧ x.id ≠ g.id) ∨
        ((∀ r ∈ s.guardianships.rows, r.id ≠ g.id) ∧ x = g) ∨
        ∃ r ∈ s.guardianships.rows, r.id = g.id ∧ x = { r with endedAt := g.endedAt }) ∧
      s'.families = s.families ∧ s'.members = s.members ∧ s'.invitations = s.invitations := by
  have written := applySource applied
  simp only [write] at written
  split at written <;> try contradiction
  have after := Option.some.inj written
  refine ⟨?_,by rw [← after],by rw [← after],by rw [← after]⟩
  intro x
  rw [← after]
  exact Table.memUpsert

theorem familySaved {scope : FamilyId} {f : Family} {s s' : Store}
    (applied : apply (.saveFamily scope f) s = some s') :
    (∀ x, x ∈ s'.families.rows ↔ (x ∈ s.families.rows ∧ x.id ≠ f.id) ∨ x = f) ∧
      s'.members = s.members ∧ s'.guardianships = s.guardianships ∧ s'.invitations = s.invitations := by
  have written := applySource applied
  simp only [write] at written
  split at written <;> try contradiction
  have after := Option.some.inj written
  refine ⟨?_,by rw [← after],by rw [← after],by rw [← after]⟩
  intro x
  rw [← after]
  simp only [upsertFamily,Table.memUpsert]
  constructor
  · rintro (old | ⟨-,rfl⟩ | ⟨r,mem,same,rfl⟩)
    · exact .inl old
    · exact .inr rfl
    · exact .inr (by rw [same])
  · rintro (old | rfl)
    · exact .inl old
    · by_cases present : ∃ r ∈ s.families.rows, r.id = x.id
      · obtain ⟨r,mem,same⟩ := present
        exact .inr (.inr ⟨r,mem,same,by rw [same]⟩)
      · exact .inr (.inl ⟨fun r mem same => present ⟨r,mem,same⟩,rfl⟩)

theorem invitationSaved {scope : FamilyId} {i : Invitation} {s s' : Store}
    (applied : apply (.saveInvitation scope i) s = some s') :
    s'.families = s.families ∧ s'.members = s.members ∧ s'.guardianships = s.guardianships := by
  have written := applySource applied
  simp only [write] at written
  split at written <;> try contradiction
  rw [← Option.some.inj written]
  exact ⟨rfl,rfl,rfl⟩

theorem appended {e : Event} {s s' : Store} (applied : apply (.append e) s = some s') :
    s'.families = s.families ∧ s'.members = s.members ∧ s'.guardianships = s.guardianships := by
  have written := applySource applied
  simp only [write] at written
  rw [← Option.some.inj written]
  exact ⟨rfl,rfl,rfl⟩

/- What the repositories read. A read sees the rows of its own family alone; the token
lookup sees the one invitation that has the token. -/
def findCurrent (scope : FamilyId) (s : Store) : Option Family := s.families.find scope

def findById (scope : FamilyId) (id : FamilyMemberId) (s : Store) : Option FamilyMember :=
  (s.members.find id).filter (·.familyId = scope)

def listActive (scope : FamilyId) (s : Store) : List FamilyMember :=
  s.members.rows.filter (fun m => m.familyId = scope && m.isActive)

def findStandingByUserId (scope : FamilyId) (userId : UserId) (s : Store) : Option FamilyMember :=
  s.members.rows.find? (fun m => m.familyId = scope && m.userId = some userId && m.isActive)

def countActiveForChild (scope : FamilyId) (child : FamilyMemberId) (s : Store) : Nat :=
  (s.guardianships.rows.filter
    (fun g => g.familyId = scope && g.childMemberId = child && g.isActive)).length

def findActive (scope : FamilyId) (guardian child : FamilyMemberId) (s : Store) :
    Option Guardianship :=
  s.guardianships.rows.find? (fun g => g.familyId = scope && g.guardianMemberId = guardian &&
    g.childMemberId = child && g.isActive)

def listActiveChildIdsGuardedBy (scope : FamilyId) (guardian : FamilyMemberId) (s : Store) :
    List FamilyMemberId :=
  (s.guardianships.rows.filter (fun g => g.familyId = scope && g.guardianMemberId = guardian &&
    g.isActive)).map (·.childMemberId)

def findPendingByEmail (scope : FamilyId) (email : EmailAddress) (s : Store) : Option Invitation :=
  s.invitations.rows.find? (fun i => i.familyId = scope && i.email = email && i.status = .pending)

def findByTokenHash (tokenHash : String) (s : Store) : Option Invitation :=
  s.invitations.rows.find? (fun i => i.tokenHash = tokenHash)

theorem findByIdSource {scope : FamilyId} {id : FamilyMemberId} {s : Store} {m : FamilyMember}
    (found : findById scope id s = some m) : m ∈ s.members.rows ∧ m.id = id ∧ m.familyId = scope := by
  obtain ⟨row,family⟩ := Option.filter_eq_some_iff.mp found
  have source := Table.findSource row
  exact ⟨source.1,source.2,by simpa using family⟩

theorem findActiveSource {scope : FamilyId} {guardian child : FamilyMemberId} {s : Store}
    {g : Guardianship} (found : findActive scope guardian child s = some g) :
    g ∈ s.guardianships.rows ∧ g.guardianMemberId = guardian ∧ g.childMemberId = child := by
  have source := List.find?_some found
  simp only [Bool.and_eq_true,decide_eq_true_eq] at source
  exact ⟨List.mem_of_find?_eq_some found,source.1.1.2,source.1.2⟩

end FamilyPlatform.Membership
