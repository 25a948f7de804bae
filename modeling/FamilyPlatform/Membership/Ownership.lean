import FamilyPlatform.Membership.Promised

/-! Exactly one owner a family. The index `family_one_owner` keeps a second owner out;
that the one owner is not lost rests on whose row a save overwrites. -/
namespace FamilyPlatform.Membership
open Interleaving (applyAll applyAllAppend Within Move run begins Reaches runInvariant)

def owners (f : Family) (s : Store) : List FamilyMember :=
  s.members.rows.filter (fun m => m.isOwner && m.familyId = f.id)

/- SC-007. -/
def OneOwner (s : Store) : Prop := ∀ f ∈ s.families.rows, (owners f s).length = 1

instance (s) : Decidable (OneOwner s) := by unfold OneOwner; infer_instance

def savesOwner (scope : FamilyId) : Statement → Bool
  | .saveMember other m => other = scope && m.isOwner
  | _ => false

/- A save over the row of an active owner comes with the save of another owner. -/
def SparesOwner (batch : List Statement) (s : Store) : Statement → Prop
  | .saveMember scope m => (∃ o ∈ s.members.rows, o.id = m.id ∧ o.isOwner) → batch.any (savesOwner scope)
  | _ => True

def SparesOwners (batch : List Statement) (s : Store) : Prop := ∀ w ∈ batch, SparesOwner batch s w

instance (batch s w) : Decidable (SparesOwner batch s w) := by
  cases w <;> unfold SparesOwner <;> infer_instance
instance (batch s) : Decidable (SparesOwners batch s) := by unfold SparesOwners; infer_instance

def HasOwner (s : Store) : Prop :=
  ∀ f ∈ s.families.rows, ∃ o ∈ s.members.rows, o.isOwner ∧ o.familyId = f.id

theorem hasOwnerOne {s : Store} (owned : HasOwner s) : OneOwner s := by
  intro f mem
  obtain ⟨o,there,owns,family⟩ := owned f mem
  refine Table.filterOne there (by simp [owns,family]) ?_
  intro x present owner
  simp only [Bool.and_eq_true,decide_eq_true_eq] at owner
  exact Table.equalOfKey present there
    (s.legal.oneOwner x present o there owner.1 owns (owner.2.trans family.symm))

theorem hasOwnerSpared {batch : List Statement} {s t : Store} (owned : HasOwner s)
    (spares : ∀ w ∈ batch, sparesMembers w) (applied : applyAll apply batch s = some t) : HasOwner t := by
  obtain ⟨families,members⟩ := membersSpared spares applied
  unfold HasOwner
  rw [families,members]
  exact owned

theorem hasOwnerSaved {scope : FamilyId} {m : FamilyMember} {s t : Store} (owned : HasOwner s)
    (applied : apply (.saveMember scope m) s = some t)
    (other : ∀ o ∈ s.members.rows, o.isOwner → o.id ≠ m.id) : HasOwner t := by
  obtain ⟨rows,-,-,families,-⟩ := memberSaved applied
  intro f mem
  obtain ⟨o,there,owns,family⟩ := owned f (families ▸ mem)
  exact ⟨o,(rows o).mpr (.inl ⟨there,other o there owns⟩),owns,family⟩

theorem hasOwnerCreated {i : Nat} {f : Family} {owner : FamilyMember} {s next t : Store}
    (owned : HasOwner s) (fresh : Fresh i s) (id : f.id = i) (own : owner.id = i)
    (member : owner.familyId = i) (owns : owner.isOwner)
    (created : apply (.saveFamily i f) s = some next)
    (saved : apply (.saveMember i owner) next = some t) : HasOwner t := by
  obtain ⟨families,same,-,-⟩ := familySaved created
  obtain ⟨rows,-,-,kept,-⟩ := memberSaved saved
  intro g mem
  rw [kept] at mem
  obtain ⟨old,-⟩ | rfl := (families g).mp mem
  · obtain ⟨o,there,isOwner,family⟩ := owned g old
    have other : o.id ≠ owner.id := own ▸ fresh.members o there
    exact ⟨o,(rows o).mpr (.inl ⟨same ▸ there,other⟩),isOwner,family⟩
  · exact ⟨owner,(rows owner).mpr (.inr rfl),owns,member.trans id.symm⟩

theorem hasOwnerTransferred {scope : FamilyId} {before after : FamilyMember} {s next t : Store}
    (owned : HasOwner s) (owns : after.isOwner)
    (first : apply (.saveMember scope before) s = some next)
    (second : apply (.saveMember scope after) next = some t) : HasOwner t := by
  obtain ⟨rows,own,isolated,families,-⟩ := memberSaved first
  obtain ⟨rows',own',isolated',families',-⟩ := memberSaved second
  intro f mem
  rw [families',families] at mem
  obtain ⟨o,there,isOwner,family⟩ := owned f mem
  have saved : after ∈ t.members.rows := (rows' after).mpr (.inr rfl)
  by_cases outgoing : o.id = before.id
  · exact ⟨after,saved,owns,own'.trans ((isolated o there outgoing).symm.trans family)⟩
  · have kept : o ∈ next.members.rows := (rows o).mpr (.inl ⟨there,outgoing⟩)
    by_cases same : o.id = after.id
    · exact ⟨after,saved,owns,own'.trans ((isolated' o kept same).symm.trans family)⟩
    · exact ⟨o,(rows' o).mpr (.inl ⟨kept,same⟩),isOwner,family⟩

/- The one member that is saved is no owner, so it was not saved over one. -/
theorem hasOwnerWithdrawn {now : Instant} {scope : FamilyId} {gs : List Guardianship} {m : FamilyMember}
    {events : List Event} {s t : Store} (role : m.isOwner = false) (owned : HasOwner s)
    (spares : SparesOwners (finishEach now scope gs ++ .saveMember scope m :: appendAll events) s)
    (applied : applyAll apply (finishEach now scope gs ++ .saveMember scope m :: appendAll events) s = some t) :
    HasOwner t := by
  have above : ∀ o ∈ s.members.rows, o.isOwner → o.id ≠ m.id := by
    intro o there owns same
    have spared : SparesOwner _ s (.saveMember scope m) := spares _ (by simp)
    obtain ⟨w,mem,saves⟩ := List.any_eq_true.mp (spared ⟨o,there,same,owns⟩)
    rcases List.mem_append.mp mem with mem | mem
    · obtain ⟨g,-,rfl⟩ := List.mem_map.mp mem
      cases saves
    · rcases List.mem_cons.mp mem with rfl | mem
      · simp [savesOwner,role] at saves
      · obtain ⟨e,-,rfl⟩ := List.mem_map.mp mem
        cases saves
  rw [applyAllAppend] at applied
  obtain ⟨a,ended,rest⟩ := Option.bind_eq_some_iff.mp applied
  simp only [applyAll,bind,Option.bind_eq_some_iff] at rest
  obtain ⟨b,saved,tail⟩ := rest
  have members := (membersSpared (finishEachSpares now scope gs) ended).2
  have owned' := hasOwnerSpared owned (finishEachSpares now scope gs) ended
  exact hasOwnerSpared (hasOwnerSaved owned' saved fun o there => above o (members ▸ there))
    (fun w mem => (appendAllSpares events w mem).1) tail

theorem hasOwnerKept {i n : Nat} {batch : List Statement} {s t : Store} (_ : i < n) (_ : Numbered n s)
    (promise : Promise i s batch) (spares : SparesOwners batch s) (owned : HasOwner s)
    (applied : applyAll apply batch s = some t) : HasOwner t := by
  cases promise with
  | @create events f owner fresh family id member owns =>
    simp only [applyAll,bind,Option.bind_eq_some_iff] at applied
    obtain ⟨a,created,b,saved,tail⟩ := applied
    exact hasOwnerSpared (hasOwnerCreated owned fresh family id member owns created saved)
      (fun w mem => (appendAllSpares events w mem).1) tail
  | invite =>
    exact hasOwnerSpared owned (fun w mem => by rw [List.mem_singleton.mp mem]; rfl) applied
  | @enrol saves events scope m fresh id role kind =>
    simp only [List.cons_append,applyAll,bind,Option.bind_eq_some_iff] at applied
    obtain ⟨a,saved,tail⟩ := applied
    refine hasOwnerSpared (hasOwnerSaved owned saved fun o there _ => id ▸ fresh.members o there) ?_ tail
    intro w mem
    rcases List.mem_append.mp mem with mem | mem
    · obtain ⟨v,-,rfl⟩ := List.mem_map.mp mem
      rfl
    · exact (appendAllSpares events w mem).1
  | @addChild events events' scope m g fresh id role own child active =>
    simp only [List.cons_append,applyAll,bind,Option.bind_eq_some_iff] at applied
    obtain ⟨a,saved,tail⟩ := applied
    refine hasOwnerSpared (hasOwnerSaved owned saved fun o there _ => id ▸ fresh.members o there) ?_ tail
    intro w mem
    rcases List.mem_append.mp mem with mem | mem
    · exact (appendAllSpares events w mem).1
    · rcases List.mem_cons.mp mem with rfl | mem
      · rfl
      · exact (appendAllSpares events' w mem).1
  | withdraw events kept role kind each => exact hasOwnerWithdrawn role owned spares applied
  | @transfer events scope before after outgoing incoming owns role kind =>
    simp only [applyAll,bind,Option.bind_eq_some_iff] at applied
    obtain ⟨a,first,b,second,tail⟩ := applied
    exact hasOwnerSpared (hasOwnerTransferred owned owns first second)
      (fun w mem => (appendAllSpares events w mem).1) tail
  | @grant events scope g fresh own active =>
    refine hasOwnerSpared owned ?_ applied
    intro w mem
    rcases List.mem_cons.mp mem with rfl | mem
    · rfl
    · exact (appendAllSpares events w mem).1
  | finish kept => exact hasOwnerSpared owned (finishEachSpares _ _ _) applied

/-- Where no save overwrites an owner's row without making another owner, every
committed state of every interleaving has exactly one owner a family. -/
theorem runOneOwner {moves : List (Move Call)} {last : Interleaving.Config Store Statement Reply}
    (spares : Within commands SparesOwners (begins .empty) moves)
    (ran : run commands (begins .empty) moves = some last) : OneOwner last.store :=
  hasOwnerOne (runInvariant commandsHold hasOwnerKept emptyNumbered
    (fun _ mem => (List.not_mem_nil mem).elim) spares ran).2

def household : List (Move Call) :=
  [.begin (.createFamily 1 "Ann" "Home"),.advance 0,
    .begin (.createInvitation 0 0 0 ⟨"ben@example.org"⟩ .adult none "token"),
    .advance 1,.advance 1,.advance 1,.advance 1,
    .begin (.acceptInvitation 1 "token" 2 ⟨"ben@example.org"⟩),.advance 2,.advance 2]

def orderlyTransfer : List (Move Call) := household ++
  [.begin (.transferOwnership 0 2),.begin (.changeMemberRole 2 0 2 .viewer),
    .advance 3,.advance 3,.advance 3,.advance 4]

theorem orderlyTransferOneOwner :
    Reaches commands (begins .empty) orderlyTransfer (fun c => OneOwner c.store) := by
  obtain ⟨last,ran⟩ := Option.isSome_iff_exists.mp
    (by decide +kernel : (run commands (begins .empty) orderlyTransfer).isSome)
  exact ⟨last,ran,runOneOwner (by decide +kernel) ran⟩

/- The role change has read Ben as an adult before the transfer commits, and saves that
copy after it. -/
def staleRoleChange : List (Move Call) := household ++
  [.begin (.transferOwnership 0 2),.begin (.changeMemberRole 2 0 2 .viewer),.advance 4,.advance 4,
    .advance 3,.advance 3,.advance 3,.advance 4]

theorem staleRoleChangeLosesOwner :
    Reaches commands (begins .empty) staleRoleChange (fun c => ¬ OneOwner c.store) := by
  decide +kernel

end FamilyPlatform.Membership
