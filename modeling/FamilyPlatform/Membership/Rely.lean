import FamilyPlatform.Membership.Commands

/-! What a commit of a family command does to the rows, whatever committed since the
command read them: rows are never lost, identifiers are never reused, and each batch
has one of the shapes of `Promise`. -/
namespace FamilyPlatform.Membership
open Interleaving (applyAll Discipline)

def SameMember (a b : FamilyMember) : Prop := a.id = b.id ∧ a.familyId = b.familyId

def SameGuardianship (a b : Guardianship) : Prop :=
  a.id = b.id ∧ a.guardianMemberId = b.guardianMemberId ∧ a.childMemberId = b.childMemberId

structure Persists (s t : Store) : Prop where
  members : ∀ r ∈ s.members.rows, ∃ x ∈ t.members.rows, SameMember x r
  guardianships : ∀ r ∈ s.guardianships.rows, ∃ x ∈ t.guardianships.rows, SameGuardianship x r

structure Fresh (i : Nat) (s : Store) : Prop where
  families : ∀ r ∈ s.families.rows, r.id ≠ i
  members : ∀ r ∈ s.members.rows, r.id ≠ i
  guardianships : ∀ r ∈ s.guardianships.rows, r.id ≠ i

structure Numbered (n : Nat) (s : Store) : Prop where
  families : ∀ r ∈ s.families.rows, r.id < n
  members : ∀ r ∈ s.members.rows, r.id < n
  guardianships : ∀ r ∈ s.guardianships.rows, r.id < n

structure Later (i : Nat) (s t : Store) : Prop where
  persists : Persists s t
  fresh : Fresh i s → Fresh i t

structure Grows (i : Nat) (s t : Store) : Prop where
  persists : Persists s t
  families : ∀ x ∈ t.families.rows, x.id = i ∨ ∃ r ∈ s.families.rows, r.id = x.id
  members : ∀ x ∈ t.members.rows, x.id = i ∨ ∃ r ∈ s.members.rows, r.id = x.id
  guardianships : ∀ x ∈ t.guardianships.rows, x.id = i ∨ ∃ r ∈ s.guardianships.rows, r.id = x.id

theorem Persists.refl (s : Store) : Persists s s :=
  ⟨fun r mem => ⟨r,mem,rfl,rfl⟩,fun r mem => ⟨r,mem,rfl,rfl,rfl⟩⟩

theorem Persists.trans {s t u : Store} (a : Persists s t) (b : Persists t u) : Persists s u := by
  refine ⟨?_,?_⟩
  · intro r mem
    obtain ⟨x,source,id,family⟩ := a.members r mem
    obtain ⟨y,last,id',family'⟩ := b.members x source
    exact ⟨y,last,id'.trans id,family'.trans family⟩
  · intro r mem
    obtain ⟨x,source,id,guardian,child⟩ := a.guardianships r mem
    obtain ⟨y,last,id',guardian',child'⟩ := b.guardianships x source
    exact ⟨y,last,id'.trans id,guardian'.trans guardian,child'.trans child⟩

theorem Later.refl (i : Nat) (s : Store) : Later i s s := ⟨.refl s,id⟩

theorem Later.trans {i : Nat} {s t u : Store} (a : Later i s t) (b : Later i t u) : Later i s u :=
  ⟨a.persists.trans b.persists,fun fresh => b.fresh (a.fresh fresh)⟩

theorem Grows.refl (i : Nat) (s : Store) : Grows i s s :=
  ⟨.refl s,fun x mem => .inr ⟨x,mem,rfl⟩,fun x mem => .inr ⟨x,mem,rfl⟩,fun x mem => .inr ⟨x,mem,rfl⟩⟩

theorem Grows.trans {i : Nat} {s t u : Store} (a : Grows i s t) (b : Grows i t u) : Grows i s u := by
  refine ⟨a.persists.trans b.persists,?_,?_,?_⟩
  · intro x mem
    obtain own | ⟨r,source,same⟩ := b.families x mem
    · exact .inl own
    · exact same ▸ a.families r source
  · intro x mem
    obtain own | ⟨r,source,same⟩ := b.members x mem
    · exact .inl own
    · exact same ▸ a.members r source
  · intro x mem
    obtain own | ⟨r,source,same⟩ := b.guardianships x mem
    · exact .inl own
    · exact same ▸ a.guardianships r source

theorem Grows.numbered {i n : Nat} {s t : Store} (grows : Grows i s t) (lt : i < n)
    (base : Numbered n s) : Numbered n t := by
  refine ⟨?_,?_,?_⟩
  · intro x mem
    obtain rfl | ⟨r,source,same⟩ := grows.families x mem
    · exact lt
    · exact same ▸ base.families r source
  · intro x mem
    obtain rfl | ⟨r,source,same⟩ := grows.members x mem
    · exact lt
    · exact same ▸ base.members r source
  · intro x mem
    obtain rfl | ⟨r,source,same⟩ := grows.guardianships x mem
    · exact lt
    · exact same ▸ base.guardianships r source

theorem Grows.later {i j : Nat} {s t : Store} (grows : Grows i s t) (other : j ≠ i) : Later j s t := by
  refine ⟨grows.persists,fun fresh => ⟨?_,?_,?_⟩⟩
  · rintro x mem rfl
    obtain own | ⟨r,source,same⟩ := grows.families x mem
    · exact other own
    · exact fresh.families r source same
  · rintro x mem rfl
    obtain own | ⟨r,source,same⟩ := grows.members x mem
    · exact other own
    · exact fresh.members r source same
  · rintro x mem rfl
    obtain own | ⟨r,source,same⟩ := grows.guardianships x mem
    · exact other own
    · exact fresh.guardianships r source same

def Owned (i : Nat) (s : Store) : Statement → Prop
  | .saveFamily _ f => f.id = i
  | .saveMember _ m => m.id = i ∨ ∃ r ∈ s.members.rows, r.id = m.id
  | .saveGuardianship _ g => g.id = i ∨ ∃ r ∈ s.guardianships.rows, r.id = g.id
  | .saveInvitation _ _ => True
  | .append _ => True

theorem ownedPersists {i : Nat} {s t : Store} {w : Statement} (persists : Persists s t)
    (owned : Owned i s w) : Owned i t w := by
  cases w with
  | saveFamily scope f => exact owned
  | saveMember scope m =>
    obtain own | ⟨r,mem,same⟩ := owned
    · exact .inl own
    · obtain ⟨x,source,id,-⟩ := persists.members r mem
      exact .inr ⟨x,source,id.trans same⟩
  | saveGuardianship scope g =>
    obtain own | ⟨r,mem,same⟩ := owned
    · exact .inl own
    · obtain ⟨x,source,id,-⟩ := persists.guardianships r mem
      exact .inr ⟨x,source,id.trans same⟩
  | saveInvitation scope i => trivial
  | append e => trivial

theorem statementGrows {i : Nat} {w : Statement} {s t : Store} (owned : Owned i s w)
    (applied : apply w s = some t) : Grows i s t := by
  have base := Grows.refl i s
  cases w with
  | saveFamily scope f =>
    obtain ⟨rows,members,guardianships,-⟩ := familySaved applied
    refine ⟨⟨members ▸ base.persists.members,guardianships ▸ base.persists.guardianships⟩,?_,
      members ▸ base.members,guardianships ▸ base.guardianships⟩
    intro x mem
    obtain ⟨old,-⟩ | rfl := (rows x).mp mem
    · exact .inr ⟨x,old,rfl⟩
    · exact .inl owned
  | saveMember scope m =>
    obtain ⟨rows,own,isolated,families,guardianships,-⟩ := memberSaved applied
    refine ⟨⟨?_,guardianships ▸ base.persists.guardianships⟩,families ▸ base.families,?_,
      guardianships ▸ base.guardianships⟩
    · intro r mem
      by_cases same : r.id = m.id
      · exact ⟨m,(rows m).mpr (.inr rfl),same.symm,own.trans (isolated r mem same).symm⟩
      · exact ⟨r,(rows r).mpr (.inl ⟨mem,same⟩),rfl,rfl⟩
    · intro x mem
      obtain ⟨old,-⟩ | rfl := (rows x).mp mem
      · exact .inr ⟨x,old,rfl⟩
      · exact owned
  | saveGuardianship scope g =>
    obtain ⟨rows,families,members,-⟩ := guardianshipSaved applied
    refine ⟨⟨members ▸ base.persists.members,?_⟩,families ▸ base.families,members ▸ base.members,?_⟩
    · intro r mem
      by_cases same : r.id = g.id
      · exact ⟨_,(rows _).mpr (.inr (.inr ⟨r,mem,same,rfl⟩)),rfl,rfl,rfl⟩
      · exact ⟨r,(rows r).mpr (.inl ⟨mem,same⟩),rfl,rfl,rfl⟩
    · intro x mem
      obtain ⟨old,-⟩ | ⟨-,rfl⟩ | ⟨r,old,-,rfl⟩ := (rows x).mp mem
      · exact .inr ⟨x,old,rfl⟩
      · exact owned
      · exact .inr ⟨r,old,rfl⟩
  | saveInvitation scope i =>
    obtain ⟨families,members,guardianships⟩ := invitationSaved applied
    exact ⟨⟨members ▸ base.persists.members,guardianships ▸ base.persists.guardianships⟩,
      families ▸ base.families,members ▸ base.members,guardianships ▸ base.guardianships⟩
  | append e =>
    obtain ⟨families,members,guardianships⟩ := appended applied
    exact ⟨⟨members ▸ base.persists.members,guardianships ▸ base.persists.guardianships⟩,
      families ▸ base.families,members ▸ base.members,guardianships ▸ base.guardianships⟩

theorem batchGrows {i : Nat} {batch : List Statement} {s t : Store} (owned : ∀ w ∈ batch, Owned i s w)
    (applied : applyAll apply batch s = some t) : Grows i s t := by
  induction batch generalizing s with
  | nil => cases Option.some.inj applied; exact .refl i _
  | cons w rest ih =>
    simp only [applyAll,bind,Option.bind_eq_some_iff] at applied
    obtain ⟨next,head,tail⟩ := applied
    have first := statementGrows (owned w List.mem_cons_self) head
    exact first.trans (ih (fun v mem =>
      ownedPersists first.persists (owned v (List.mem_cons_of_mem w mem))) tail)

def sparesMembers : Statement → Bool
  | .saveFamily _ _ | .saveMember _ _ => false
  | _ => true

def sparesGuardianships : Statement → Bool
  | .saveGuardianship _ _ => false
  | _ => true

theorem membersSpared {batch : List Statement} {s t : Store} (spares : ∀ w ∈ batch, sparesMembers w)
    (applied : applyAll apply batch s = some t) :
    t.families = s.families ∧ t.members = s.members := by
  induction batch generalizing s with
  | nil => cases Option.some.inj applied; exact ⟨rfl,rfl⟩
  | cons w rest ih =>
    simp only [applyAll,bind,Option.bind_eq_some_iff] at applied
    obtain ⟨next,head,tail⟩ := applied
    obtain ⟨families,members⟩ := ih (fun v mem => spares v (List.mem_cons_of_mem w mem)) tail
    have first : next.families = s.families ∧ next.members = s.members := by
      have kind := spares w List.mem_cons_self
      cases w with
      | saveFamily | saveMember => cases kind
      | saveGuardianship => exact ⟨(guardianshipSaved head).2.1,(guardianshipSaved head).2.2.1⟩
      | saveInvitation => exact ⟨(invitationSaved head).1,(invitationSaved head).2.1⟩
      | append => exact ⟨(appended head).1,(appended head).2.1⟩
    exact ⟨families.trans first.1,members.trans first.2⟩

theorem guardianshipsSpared {batch : List Statement} {s t : Store}
    (spares : ∀ w ∈ batch, sparesGuardianships w) (applied : applyAll apply batch s = some t) :
    t.guardianships = s.guardianships := by
  induction batch generalizing s with
  | nil => cases Option.some.inj applied; rfl
  | cons w rest ih =>
    simp only [applyAll,bind,Option.bind_eq_some_iff] at applied
    obtain ⟨next,head,tail⟩ := applied
    refine (ih (fun v mem => spares v (List.mem_cons_of_mem w mem)) tail).trans ?_
    have kind := spares w List.mem_cons_self
    cases w with
    | saveFamily => exact (familySaved head).2.2.1
    | saveMember => exact (memberSaved head).2.2.2.2.1
    | saveGuardianship => cases kind
    | saveInvitation => exact (invitationSaved head).2.2
    | append => exact (appended head).2.2

def MemberKept (s : Store) (id : FamilyMemberId) : Prop := ∃ r ∈ s.members.rows, r.id = id

def GuardianshipKept (s : Store) (g : Guardianship) : Prop :=
  ∃ r ∈ s.guardianships.rows, SameGuardianship r g

theorem MemberKept.later {i : Nat} {s t : Store} {id : FamilyMemberId} (kept : MemberKept s id)
    (later : Later i s t) : MemberKept t id := by
  obtain ⟨r,mem,rfl⟩ := kept
  obtain ⟨x,source,same,-⟩ := later.persists.members r mem
  exact ⟨x,source,same⟩

theorem GuardianshipKept.later {i : Nat} {s t : Store} {g : Guardianship} (kept : GuardianshipKept s g)
    (later : Later i s t) : GuardianshipKept t g := by
  obtain ⟨r,mem,id,guardian,child⟩ := kept
  obtain ⟨x,source,id',guardian',child'⟩ := later.persists.guardianships r mem
  exact ⟨x,source,id'.trans id,guardian'.trans guardian,child'.trans child⟩

def isActiveChild (m : FamilyMember) : Bool := m.kind = .child && m.isActive

def appendAll (events : List Event) : List Statement := events.map .append

theorem appendAllSpares (events : List Event) :
    ∀ w ∈ appendAll events, sparesMembers w ∧ sparesGuardianships w := by
  intro w mem
  obtain ⟨e,-,rfl⟩ := List.mem_map.mp mem
  exact ⟨rfl,rfl⟩

theorem finishEachSpares (now : Instant) (scope : FamilyId) (gs : List Guardianship) :
    ∀ w ∈ finishEach now scope gs, sparesMembers w := by
  intro w mem
  obtain ⟨g,-,rfl⟩ := List.mem_map.mp mem
  rfl

inductive Promise (i : Nat) (s : Store) : List Statement → Prop where
  | create (events : List Event) {f : Family} {owner : FamilyMember} (fresh : Fresh i s)
      (family : f.id = i) (id : owner.id = i) (member : owner.familyId = i) (owns : owner.isOwner) :
      Promise i s (.saveFamily i f :: .saveMember i owner :: appendAll events)
  | invite {scope invitation} : Promise i s [.saveInvitation scope invitation]
  | enrol (saves : List Invitation) (events : List Event) {scope : FamilyId} {m : FamilyMember}
      (fresh : Fresh i s) (id : m.id = i) (role : m.isOwner = false) (kind : isActiveChild m = false) :
      Promise i s (.saveMember scope m :: saves.map (Statement.saveInvitation scope) ++ appendAll events)
  | addChild (events events' : List Event) {scope : FamilyId} {m : FamilyMember} {g : Guardianship}
      (fresh : Fresh i s) (id : m.id = i) (role : m.isOwner = false) (own : g.id = i)
      (child : g.childMemberId = i) (active : g.isActive) :
      Promise i s (.saveMember scope m :: appendAll events ++
        .saveGuardianship scope g :: appendAll events')
  | withdraw (events : List Event) {now scope guardian gs m} (kept : MemberKept s m.id) (role : m.isOwner = false)
      (kind : isActiveChild m = false) (each : ∀ g ∈ gs, GuardianshipKept s g ∧
        g.guardianMemberId = guardian) :
      Promise i s (finishEach now scope gs ++ .saveMember scope m :: appendAll events)
  | transfer (events : List Event) {scope before after} (outgoing : MemberKept s before.id)
      (incoming : MemberKept s after.id) (owns : after.isOwner) (role : before.isOwner = false)
      (kind : isActiveChild before = false) :
      Promise i s (.saveMember scope before :: .saveMember scope after :: appendAll events)
  | grant (events : List Event) {scope g} (fresh : Fresh i s) (own : g.id = i) (active : g.isActive) :
      Promise i s (.saveGuardianship scope g :: appendAll events)
  | finish {now scope g} (kept : GuardianshipKept s g) : Promise i s (finishEach now scope [g])

theorem appendAllOwned {i : Nat} {s : Store} (events : List Event) : ∀ w ∈ appendAll events, Owned i s w := by
  intro w mem
  obtain ⟨e,-,rfl⟩ := List.mem_map.mp mem
  trivial

theorem finishEachOwned {i : Nat} {s : Store} {now : Instant} {scope : FamilyId} {gs : List Guardianship}
    (each : ∀ g ∈ gs, GuardianshipKept s g) : ∀ w ∈ finishEach now scope gs, Owned i s w := by
  intro w mem
  obtain ⟨g,source,rfl⟩ := List.mem_map.mp mem
  obtain ⟨r,there,same,-⟩ := each g source
  exact .inr ⟨r,there,same⟩

theorem promiseOwned {i : Nat} {s : Store} {batch : List Statement} (promise : Promise i s batch) :
    ∀ w ∈ batch, Owned i s w := by
  cases promise with
  | create events fresh family id member owns =>
    exact List.forall_mem_cons.mpr ⟨family,List.forall_mem_cons.mpr ⟨.inl id,appendAllOwned events⟩⟩
  | invite => exact List.forall_mem_singleton.mpr trivial
  | enrol saves events fresh id role kind =>
    refine List.forall_mem_append.mpr ⟨List.forall_mem_cons.mpr ⟨.inl id,?_⟩,appendAllOwned events⟩
    intro w mem
    obtain ⟨v,-,rfl⟩ := List.mem_map.mp mem
    trivial
  | addChild events events' fresh id role own child active =>
    exact List.forall_mem_append.mpr ⟨List.forall_mem_cons.mpr ⟨.inl id,appendAllOwned events⟩,
      List.forall_mem_cons.mpr ⟨.inl own,appendAllOwned events'⟩⟩
  | withdraw events kept role kind each =>
    exact List.forall_mem_append.mpr ⟨finishEachOwned (fun g source => (each g source).1),
      List.forall_mem_cons.mpr ⟨.inr kept,appendAllOwned events⟩⟩
  | transfer events outgoing incoming owns role kind =>
    exact List.forall_mem_cons.mpr ⟨.inr outgoing,List.forall_mem_cons.mpr ⟨.inr incoming,appendAllOwned events⟩⟩
  | grant events fresh own active => exact List.forall_mem_cons.mpr ⟨.inl own,appendAllOwned events⟩
  | finish kept => exact finishEachOwned (List.forall_mem_singleton.mpr kept)

def discipline : Discipline apply Reply where
  good := Numbered
  rely := Later
  promise := fun i batch s => Promise i s batch
  answer := fun _ _ _ => True
  issue := fun base => ⟨fun r mem => Nat.lt_succ_of_lt (base.families r mem),
    fun r mem => Nat.lt_succ_of_lt (base.members r mem),
    fun r mem => Nat.lt_succ_of_lt (base.guardianships r mem)⟩
  refl := .refl
  trans := .trans
  stays := fun _ _ => trivial
  keeps := fun lt base promise applied =>
    have grows := batchGrows (promiseOwned promise) applied
    ⟨grows.numbered lt base,fun _ other => grows.later other⟩

end FamilyPlatform.Membership
