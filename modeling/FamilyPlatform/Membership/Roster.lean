import Mathlib.Logic.Function.Basic
import FamilyPlatform.Membership.Committed

/-! The roster that a consumer keeps from the events, against the rows. A transfer tells
of every heir that the heir was an adult, also of an extended member or a viewer. -/
namespace FamilyPlatform.Membership
open Interleaving (applyAll alone serial SerialWithin serialKeeps aloneProposes applyAllCons)

abbrev Roster := FamilyMemberId → Option (MemberKind × MemberRole)

def record (family : FamilyId) (known : Roster) : Event → Roster
  | .memberAdded f id kind role _ => if f = family then Function.update known id (some (kind,role)) else known
  | .memberRoleChanged f id _ role =>
    if f = family then Function.update known id ((known id).map (fun held => (held.1,role))) else known
  | .memberRemoved f id _ => if f = family then Function.update known id none else known
  | .familyCreated _ _ _ | .guardianshipEstablished _ _ _ | .familyDeletionRequested _ _ => known

def replay (family : FamilyId) (events : List Event) : Roster := events.foldl (record family) (fun _ => none)

def RoleHeld (family : FamilyId) (known : Roster) : Event → Prop
  | .memberRoleChanged f id role _ => f = family → (known id).map Prod.snd = some role
  | _ => True

def RolesHeld (family : FamilyId) (known : Roster) : List Event → Prop
  | [] => True
  | e :: rest => RoleHeld family known e ∧ RolesHeld family (record family known e) rest

instance (family known e) : Decidable (RoleHeld family known e) := by
  cases e <;> unfold RoleHeld <;> infer_instance

instance decideRolesHeld (family) : (known : Roster) → (events : List Event) → Decidable (RolesHeld family known events)
  | _, [] => .isTrue trivial
  | known, e :: rest =>
    have : Decidable (RolesHeld family (record family known e) rest) := decideRolesHeld family _ rest
    inferInstanceAs (Decidable (_ ∧ _))

def standing (m : FamilyMember) : Option (MemberKind × MemberRole) :=
  if m.isActive then some (m.kind,m.role) else none

def roster (family : FamilyId) (s : Store) : Roster := fun id => (findById family id s).bind standing

structure Told (family : FamilyId) (s : Store) : Prop where
  replayed : replay family s.outbox = roster family s
  held : RolesHeld family (fun _ => none) s.outbox

/- What `promoteToOwner` asks of the heir, and what the event says of it. -/
def HeirIsAdult : Call → Store → Prop
  | .transferOwnership familyId toMemberId, s => ∀ heir ∈ findById familyId toMemberId s,
    heir.isActive → heir.kind = .adult → heir.userId ≠ none → heir.role ≠ .owner → heir.role = .adult
  | _, _ => True

instance (call s) : Decidable (HeirIsAdult call s) := by
  unfold HeirIsAdult
  split <;> infer_instance

theorem rolesHeldAppend {family : FamilyId} {known : Roster} {xs ys : List Event} :
    RolesHeld family known (xs ++ ys) ↔
      RolesHeld family known xs ∧ RolesHeld family (xs.foldl (record family) known) ys := by
  induction xs generalizing known with
  | nil => simp [RolesHeld]
  | cons x rest ih => simp only [List.cons_append,RolesHeld,ih,List.foldl_cons,and_assoc]

def told : Statement → List Event
  | .append e => [e]
  | _ => []

theorem outboxWritten {w : Statement} {s t : Store} (applied : apply w s = some t) :
    t.outbox = s.outbox ++ told w := by
  have written := applySource applied
  cases w with
  | append e =>
    simp only [write] at written
    rw [← Option.some.inj written]
    rfl
  | saveFamily | saveMember | saveGuardianship | saveInvitation =>
    simp only [write] at written
    split at written <;> try contradiction
    rw [← Option.some.inj written]
    simp [told]

theorem outboxAll {batch : List Statement} {s t : Store} (applied : applyAll apply batch s = some t) :
    t.outbox = s.outbox ++ batch.flatMap told := by
  induction batch generalizing s with
  | nil =>
    cases Option.some.inj applied
    simp
  | cons w rest ih =>
    obtain ⟨next,head,tail⟩ := applyAllCons applied
    rw [ih tail,outboxWritten head,List.append_assoc,List.flatMap_cons]

def seat (family : FamilyId) (known : Roster) : Statement → Roster
  | .saveMember scope m => if scope = family then Function.update known m.id (standing m) else known
  | _ => known

theorem rosterSaved {family scope : FamilyId} {m : FamilyMember} {s t : Store}
    (applied : apply (.saveMember scope m) s = some t) :
    roster family t = seat family (roster family s) (.saveMember scope m) := by
  obtain ⟨rows,own,isolated,-⟩ := memberSaved applied
  have found (id : FamilyMemberId) : t.members.find id = if id = m.id then some m else s.members.find id := by
    split
    · rename_i same
      rw [same]
      exact Table.findMember ((rows m).mpr (.inr rfl))
    · rename_i other
      cases there : s.members.find id with
      | some r =>
        obtain ⟨mem,rfl⟩ := Table.findSource there
        exact Table.findMember ((rows r).mpr (.inl ⟨mem,other⟩))
      | none =>
        refine List.find?_eq_none.mpr (fun r mem => ?_)
        obtain ⟨old,-⟩ | rfl := (rows r).mp mem
        · simpa using Table.findAbsent there r old
        · simpa using fun same => other same.symm
  unfold roster seat findById
  funext id
  rw [found]
  by_cases same : id = m.id
  · subst same
    by_cases home : scope = family
    · simp [home,own.trans home,Option.filter_some]
    · have away : (s.members.find m.id).filter (fun r => decide (r.familyId = family)) = none := by
        refine Option.filter_eq_none_iff.mpr (fun r there => ?_)
        obtain ⟨mem,id⟩ := Table.findSource there
        simpa [isolated r mem id] using home
      simp [home,own,away,Option.filter_some]
  · by_cases home : scope = family <;> simp [home,same]

theorem rosterSpared {family : FamilyId} {s t : Store} (members : t.members = s.members) :
    roster family t = roster family s := by
  unfold roster findById
  rw [members]

theorem rosterAll {family : FamilyId} {batch : List Statement} {s t : Store}
    (applied : applyAll apply batch s = some t) :
    roster family t = batch.foldl (seat family) (roster family s) := by
  induction batch generalizing s with
  | nil =>
    cases Option.some.inj applied
    rfl
  | cons w rest ih =>
    obtain ⟨next,head,tail⟩ := applyAllCons applied
    rw [ih tail,List.foldl_cons]
    congr 1
    cases w with
    | saveMember scope m => exact rosterSaved head
    | saveFamily => exact rosterSpared (familySaved head).2.1
    | saveGuardianship => exact rosterSpared (guardianshipSaved head).2.2.1
    | saveInvitation => exact rosterSpared (invitationSaved head).2.1
    | append => exact rosterSpared (appended head).2.1

structure Tells (family : FamilyId) (known : Roster) (batch : List Statement) : Prop where
  replayed : (batch.flatMap told).foldl (record family) known = batch.foldl (seat family) known
  held : RolesHeld family known (batch.flatMap told)

theorem toldNext {family : FamilyId} {batch : List Statement} {s t : Store} (before : Told family s)
    (tells : Tells family (roster family s) batch) (applied : applyAll apply batch s = some t) : Told family t where
  replayed := by
    rw [outboxAll applied,rosterAll applied,replay,List.foldl_append]
    rw [show s.outbox.foldl (record family) (fun _ => none) = roster family s from before.replayed]
    exact tells.replayed
  held := by
    rw [outboxAll applied,rolesHeldAppend]
    refine ⟨before.held,?_⟩
    rw [show s.outbox.foldl (record family) (fun _ => none) = roster family s from before.replayed]
    exact tells.held

theorem sparedTells {family : FamilyId} {known : Roster} {batch rest : List Statement}
    (spares : ∀ w ∈ batch, sparesMembers w ∧ told w = []) (tells : Tells family known rest) :
    Tells family known (batch ++ rest) := by
  have quiet : batch.flatMap told = [] := List.flatMap_eq_nil_iff.mpr (fun w mem => (spares w mem).2)
  have still : batch.foldl (seat family) known = known := by
    clear tells quiet
    induction batch with
    | nil => rfl
    | cons w rest ih =>
      have first : seat family known w = known := by
        have kind := (spares w List.mem_cons_self).1
        cases w with
        | saveFamily | saveMember => cases kind
        | saveGuardianship | saveInvitation | append => rfl
      rw [List.foldl_cons,first]
      exact ih (fun v mem => spares v (List.mem_cons_of_mem w mem))
  refine ⟨?_,?_⟩
  · rw [List.flatMap_append,quiet,List.nil_append,List.foldl_append,still]
    exact tells.replayed
  · rw [List.flatMap_append,quiet,List.nil_append]
    exact tells.held

theorem finishEachTells {family : FamilyId} {known : Roster} {now : Instant} {scope : FamilyId}
    {gs : List Guardianship} {rest : List Statement} (tells : Tells family known rest) :
    Tells family known (finishEach now scope gs ++ rest) := by
  refine sparedTells (fun w mem => ?_) tells
  obtain ⟨g,-,rfl⟩ := List.mem_map.mp mem
  exact ⟨rfl,rfl⟩

theorem rosterFound {scope : FamilyId} {id : FamilyMemberId} {m : FamilyMember} {s : Store}
    (found : findById scope id s = some m) (active : m.isActive) : roster scope s m.id = some (m.kind,m.role) := by
  obtain ⟨-,same,-⟩ := findByIdSource found
  rw [same]
  simp [roster,found,standing,active]

theorem createdStanding {id familyId userId raw m}
    (created : FamilyMember.createOwner id familyId userId raw = .ok m) : standing m = some (.adult,.owner) := by
  simp only [FamilyMember.createOwner] at created
  split at created <;> try contradiction
  cases created
  rfl

theorem unlinkedStanding {id familyId kind raw birth m}
    (created : FamilyMember.createUnlinked id familyId kind raw birth = .ok m) : standing m = some (m.kind,m.role) := by
  simp only [FamilyMember.createUnlinked] at created
  split at created <;> try contradiction
  cases created
  rfl

theorem invitedStanding {id familyId userId role raw m}
    (created : FamilyMember.createFromInvitation id familyId userId role raw = .ok m) :
    standing m = some (.adult,role) := by
  simp only [FamilyMember.createFromInvitation] at created
  split at created <;> try contradiction
  split at created <;> try contradiction
  cases created
  rfl

theorem promoteLinked {m promoted : FamilyMember} (ok : m.promoteToOwner = .ok promoted) : m.userId ≠ none := by
  simp only [FamilyMember.promoteToOwner] at ok
  split at ok <;> try contradiction
  rename_i eligible
  exact fun unlinked => eligible (.inr unlinked)

theorem transferTells {scope : FamilyId} {heir owner : FamilyMember} {known : Roster}
    (active : heir.isActive) (alive : owner.isActive) (seated : known heir.id = some (heir.kind,.adult))
    (owned : known owner.id = some (owner.kind,.owner)) (different : owner.id ≠ heir.id) :
    Tells scope known [.saveMember scope { owner with role := .adult },.saveMember scope { heir with role := .owner },
      .append (.memberRoleChanged scope owner.id .owner .adult),
      .append (.memberRoleChanged scope heir.id .adult .owner)] := by
  have promoted : standing { heir with role := .owner } = some (heir.kind,.owner) := if_pos active
  have demoted : standing { owner with role := .adult } = some (owner.kind,.adult) := if_pos alive
  constructor
  · simp [told,record,seat,promoted,demoted,seated,owned,different.symm]
  · simp [told,record,RolesHeld,RoleHeld,seated,owned,different.symm]

theorem changedTells {now : Instant} {scope family : FamilyId} {id : FamilyMemberId} {member : FamilyMember}
    {role : MemberRole} {gs : List Guardianship} {s : Store} (found : findById scope id s = some member)
    (active : member.isActive) : Tells family (roster family s) (finishEach now scope gs ++
      [.saveMember scope { member with role },.append (.memberRoleChanged scope member.id member.role role)]) := by
  have known := rosterFound found active
  have stands : standing { member with role } = some (member.kind,role) := if_pos active
  refine finishEachTells ⟨?_,?_⟩
  · by_cases home : scope = family
    · subst home
      simp [told,record,seat,known,stands]
    · simp [told,record,seat,home]
  · refine ⟨?_,trivial⟩
    rintro rfl
    simp [known]

/- An heir who was an adult is told as one, and nobody else is the owner. -/
theorem transferredTells {scope family : FamilyId} {id : FamilyMemberId} {heir owner : FamilyMember} {s : Store}
    (found : findById scope id s = some heir) (active : heir.isActive) (current : owner ∈ listActive scope s)
    (owns : owner.role = .owner) (different : owner.id ≠ heir.id) (before : heir.role ≠ .owner → heir.role = .adult) :
    Tells family (roster family s) [.saveMember scope { owner with role := .adult },
      .saveMember scope { heir with role := .owner },.append (.memberRoleChanged scope owner.id .owner .adult),
      .append (.memberRoleChanged scope heir.id .adult .owner)] := by
  obtain ⟨there,-,family'⟩ := findByIdSource found
  obtain ⟨mem,stands⟩ := List.mem_filter.mp current
  simp only [Bool.and_eq_true,decide_eq_true_eq] at stands
  have found' : findById scope owner.id s = some owner := by
    simp [findById,Table.findMember mem,Option.filter_some,stands.1]
  have other : heir.role ≠ .owner := by
    intro owns'
    exact different (s.legal.oneOwner owner mem heir there (by simp [FamilyMember.isOwner,stands.2,owns])
      (by simp [FamilyMember.isOwner,active,owns']) (stands.1.trans family'.symm))
  by_cases home : scope = family
  · subst home
    exact transferTells active stands.2 (before other ▸ rosterFound found active) (owns ▸ rosterFound found' stands.2)
      different
  · constructor
    · simp [told,record,seat,home]
    · simp [told,RolesHeld,RoleHeld,home]

theorem committedTells {n : Nat} {call : Call} {batch : List Statement} {family : FamilyId} {s : Store}
    (adult : HeirIsAdult call s) (committed : Committed n s call batch) : Tells family (roster family s) batch := by
  cases committed with
  | founded family made =>
    obtain ⟨rfl,-⟩ := createOwnerSource made
    constructor
    · simp [told,record,seat,createdStanding made]
    · simp [told,RolesHeld,RoleHeld]
  | invited => exact ⟨rfl,trivial⟩
  | joined made =>
    obtain ⟨rfl,-⟩ := createFromInvitationSource made
    constructor
    · simp [told,record,seat,invitedStanding made]
    · simp [told,RolesHeld,RoleHeld]
  | enrolled made grown =>
    obtain ⟨rfl,-⟩ := createUnlinkedSource made
    constructor
    · simp [told,record,seat,unlinkedStanding made]
    · simp [told,RolesHeld,RoleHeld]
  | born made found established =>
    obtain ⟨rfl,-⟩ := createUnlinkedSource made
    constructor
    · simp [told,record,seat,unlinkedStanding made]
    · simp [told,RolesHeld,RoleHeld]
  | changed found active ok withdrawn =>
    obtain ⟨rfl,-⟩ := changeRoleSource ok
    exact changedTells found active
  | removed found active role withdrawn =>
    refine finishEachTells ⟨?_,?_⟩
    · simp [told,record,seat,standing,removeSource]
      rfl
    · simp [told,RolesHeld,RoleHeld]
  | transferred found active current owner different promote demote =>
    obtain ⟨rfl,kind⟩ := promoteSource promote
    obtain ⟨rfl,-⟩ := demoteSource demote
    exact transferredTells found active current owner different (adult _ found active kind (promoteLinked promote))
  | granted => exact ⟨rfl,trivial,trivial⟩
  | ended => exact ⟨rfl,trivial⟩

theorem toldAlone (n : Nat) (s : Store) (call : Call) (before : ∀ family, Told family s) (adult : HeirIsAdult call s) :
    ∀ family, Told family (alone commands.apply (commands.start call n) s).2 := by
  rcases aloneProposes apply (commandsPropose (n := n) (s := s) call) with same | ⟨batch,committed,applied⟩
  · rw [show (alone commands.apply (commands.start call n) s).2 = s from same]
    exact before
  · exact fun family => toldNext (before family) (committedTells adult committed) applied

/-- Where ownership goes to adults alone, the events of a family tell its roster after
any series of commands, and each role that they say was given up was held. -/
theorem serialTold {calls : List Call} (adult : SerialWithin commands HeirIsAdult 0 .empty calls) (family : FamilyId) :
    Told family (serial commands 0 .empty calls).2 := by
  have base : ∀ other, Told other Store.empty := fun _ => ⟨rfl,trivial⟩
  exact serialKeeps toldAlone base adult family

def handedOver (role : MemberRole) : List Call :=
  [.createFamily 1 "Ann" "Home",.createInvitation 0 0 0 ⟨"ben@example.org"⟩ role none "token",
    .acceptInvitation 1 "token" 2 ⟨"ben@example.org"⟩,.transferOwnership 0 2]

theorem adultHeirTold : Told 0 (serial commands 0 .empty (handedOver .adult)).2 := serialTold (by decide +kernel) 0

theorem viewerHeirMistold : ¬ Told 0 (serial commands 0 .empty (handedOver .viewer)).2 := by
  intro told
  exact absurd told.held (by decide +kernel)

end FamilyPlatform.Membership
