import FamilyPlatform.Membership.Promised

/-! No active child without an active guardian. Every command that ends a guardianship
counts first and ends later; what it counted can be gone by then. -/
namespace FamilyPlatform.Membership
open Interleaving (applyAll applyAllAppend applyAllCons Within Move run begins Reaches runInvariant)

/- FR-008, SC-006. -/
def Covered (s : Store) : Prop :=
  ∀ m ∈ s.members.rows, isActiveChild m → ∃ g ∈ s.guardianships.rows, g.isActive ∧ g.childMemberId = m.id

instance (s) : Decidable (Covered s) := by unfold Covered; infer_instance

def endsGuardianship (id : GuardianshipId) : Statement → Bool
  | .saveGuardianship _ g => g.id = id && !g.isActive
  | _ => false

/- The coverage check of the call passes once more on the count its commit finds. -/
def StillCovers (batch : List Statement) (s : Store) : Prop :=
  ∀ g ∈ s.guardianships.rows, g.isActive → batch.any (endsGuardianship g.id) →
    ∀ m ∈ s.members.rows, m.id = g.childMemberId → isActiveChild m →
      (assertGuardianCoverage ((countActiveForChild m.familyId m.id s : Int) - 1)).isOk

instance (batch s) : Decidable (StillCovers batch s) := by unfold StillCovers; infer_instance

theorem coverageTwo {count : Nat} (ok : (assertGuardianCoverage ((count : Int) - 1)).isOk) :
    2 ≤ count := by
  unfold assertGuardianCoverage at ok
  split at ok
  · cases ok
  · omega

theorem coveredMembers {s t : Store} (covered : Covered s) (guardianships : t.guardianships = s.guardianships)
    (members : ∀ m ∈ t.members.rows, isActiveChild m → m ∈ s.members.rows) : Covered t := by
  intro m mem child
  rw [guardianships]
  exact covered m (members m mem child) child

theorem coveredSaved {scope : FamilyId} {m : FamilyMember} {s t : Store} (covered : Covered s)
    (kind : isActiveChild m = false) (applied : apply (.saveMember scope m) s = some t) : Covered t := by
  obtain ⟨rows,-,-,-,guardianships,-⟩ := memberSaved applied
  refine coveredMembers covered guardianships ?_
  intro x mem child
  obtain ⟨old,-⟩ | rfl := (rows x).mp mem
  · exact old
  · rw [kind] at child
    cases child

theorem coveredSpared {batch : List Statement} {s t : Store} (covered : Covered s)
    (spares : ∀ w ∈ batch, sparesMembers w ∧ sparesGuardianships w)
    (applied : applyAll apply batch s = some t) : Covered t := by
  have members := (membersSpared (fun w mem => (spares w mem).1) applied).2
  exact coveredMembers covered (guardianshipsSpared (fun w mem => (spares w mem).2) applied)
    fun m mem _ => members ▸ mem

theorem ownerNotChild {m : FamilyMember} {s : Store} (mem : m ∈ s.members.rows) (owns : m.isOwner) :
    isActiveChild m = false := by
  simp only [FamilyMember.isOwner,Bool.and_eq_true,decide_eq_true_eq] at owns
  have adult := ((s.legal.members m mem).2.2.1 owns.2).2
  simp [isActiveChild,adult]

theorem coveredOwnerSaved {scope : FamilyId} {m : FamilyMember} {s t : Store} (covered : Covered s)
    (owns : m.isOwner) (applied : apply (.saveMember scope m) s = some t) : Covered t := by
  have saved : m ∈ t.members.rows := ((memberSaved applied).1 m).mpr (.inr rfl)
  exact coveredSaved covered (ownerNotChild saved owns) applied

theorem finishedRows {now : Instant} {scope : FamilyId} {gs : List Guardianship} {s t : Store}
    (applied : applyAll apply (finishEach now scope gs) s = some t) :
    ∀ r ∈ s.guardianships.rows, (∀ g ∈ gs, r.id ≠ g.id) → r ∈ t.guardianships.rows := by
  induction gs generalizing s with
  | nil => cases Option.some.inj applied; exact fun r mem _ => mem
  | cons g rest ih =>
    simp only [finishEach,List.map_cons,applyAll,bind,Option.bind_eq_some_iff] at applied
    obtain ⟨next,head,tail⟩ := applied
    obtain ⟨rows,-⟩ := guardianshipSaved head
    intro r mem other
    have kept : r ∈ next.guardianships.rows := (rows r).mpr (.inl ⟨mem,other g List.mem_cons_self⟩)
    exact ih tail r kept fun h later => other h (List.mem_cons_of_mem g later)

theorem endsFinished {now : Instant} {scope : FamilyId} {gs : List Guardianship} {rest : List Statement}
    {r : Guardianship} (ended : ∃ g ∈ gs, r.id = g.id) :
    (finishEach now scope gs ++ rest).any (endsGuardianship r.id) := by
  obtain ⟨g,mem,same⟩ := ended
  refine List.any_eq_true.mpr ⟨_,List.mem_append_left _ (List.mem_map.mpr ⟨g,mem,rfl⟩),?_⟩
  simp [endsGuardianship,Guardianship.finish,Guardianship.isActive,same]

/- One guardian's guardianships end, at most one of them of each child: where the count
leaves a margin, another guardianship of the child is untouched. -/
theorem coveredFinished {now : Instant} {scope : FamilyId} {guardian : FamilyMemberId}
    {gs : List Guardianship} {rest : List Statement} {s t : Store} (covered : Covered s)
    (each : ∀ g ∈ gs, GuardianshipKept s g ∧ g.guardianMemberId = guardian)
    (still : StillCovers (finishEach now scope gs ++ rest) s)
    (applied : applyAll apply (finishEach now scope gs) s = some t) : Covered t := by
  intro m mem child
  rw [(membersSpared (finishEachSpares now scope gs) applied).2] at mem
  obtain ⟨r,there,active,same⟩ := covered m mem child
  by_cases ended : ∃ g ∈ gs, r.id = g.id
  · have two := coverageTwo (still r there active (endsFinished ended) m mem same.symm child)
    obtain ⟨a,left,b,right,pa,pb,other⟩ := Table.filterTwo two
    simp only [Bool.and_eq_true,decide_eq_true_eq] at pa pb
    have ofGuardian : ∀ x ∈ s.guardianships.rows, (∃ g ∈ gs, x.id = g.id) →
        x.guardianMemberId = guardian := by
      intro x source ⟨g,listed,id⟩
      obtain ⟨⟨y,kept,id',owner,-⟩,own⟩ := each g listed
      rw [Table.equalOfKey source kept (id.trans id'.symm)]
      exact owner.trans own
    by_cases first : ∃ g ∈ gs, a.id = g.id
    · by_cases second : ∃ g ∈ gs, b.id = g.id
      · refine absurd (s.legal.onePair a left b right pa.2 pb.2 ?_ (pa.1.2.trans pb.1.2.symm)) other
        exact (ofGuardian a left first).trans (ofGuardian b right second).symm
      · exact ⟨b,finishedRows applied b right fun g listed id => second ⟨g,listed,id⟩,pb.2,pb.1.2⟩
    · exact ⟨a,finishedRows applied a left fun g listed id => first ⟨g,listed,id⟩,pa.2,pa.1.2⟩
  · exact ⟨r,finishedRows applied r there fun g listed id => ended ⟨g,listed,id⟩,active,same⟩

theorem coveredGranted {scope : FamilyId} {g : Guardianship} {s t : Store} (covered : Covered s)
    (fresh : ∀ r ∈ s.guardianships.rows, r.id ≠ g.id)
    (applied : apply (.saveGuardianship scope g) s = some t) : Covered t := by
  obtain ⟨rows,-,members,-⟩ := guardianshipSaved applied
  intro m mem child
  obtain ⟨r,there,active,same⟩ := covered m (members ▸ mem) child
  exact ⟨r,(rows r).mpr (.inl ⟨there,fresh r there⟩),active,same⟩

theorem coveredChild {i : Nat} {scope : FamilyId} {m : FamilyMember} {g : Guardianship}
    {events : List Event} {s a b t : Store} (covered : Covered s) (fresh : Fresh i s) (id : m.id = i)
    (own : g.id = i) (child : g.childMemberId = i) (active : g.isActive)
    (saved : apply (.saveMember scope m) s = some a)
    (between : applyAll apply (appendAll events) a = some b)
    (established : apply (.saveGuardianship scope g) b = some t) : Covered t := by
  obtain ⟨members,-,-,-,same,-⟩ := memberSaved saved
  have spared := fun w mem => appendAllSpares events w mem
  have members' := (membersSpared (fun w mem => (spared w mem).1) between).2
  have guardianships := guardianshipsSpared (fun w mem => (spared w mem).2) between
  obtain ⟨rows,-,members'',-⟩ := guardianshipSaved established
  rw [guardianships,same] at rows
  intro x mem isChild
  rw [members'',members'] at mem
  obtain ⟨old,-⟩ | rfl := (members x).mp mem
  · obtain ⟨r,there,alive,of⟩ := covered x old isChild
    exact ⟨r,(rows r).mpr (.inl ⟨there,own ▸ fresh.guardianships r there⟩),alive,of⟩
  · exact ⟨g,(rows g).mpr (.inr (.inl ⟨fun r there => own ▸ fresh.guardianships r there,rfl⟩)),active,
      child.trans id.symm⟩

theorem coveredFounded {i : Nat} {f : Family} {owner : FamilyMember} {events : List Event} {s t : Store}
    (owns : owner.isOwner) (covered : Covered s)
    (applied : applyAll apply (.saveFamily i f :: .saveMember i owner :: appendAll events) s = some t) : Covered t := by
  obtain ⟨a,created,rest⟩ := applyAllCons applied
  obtain ⟨b,saved,tail⟩ := applyAllCons rest
  obtain ⟨-,members,guardianships,-⟩ := familySaved created
  have base := coveredMembers covered guardianships fun m mem _ => members ▸ mem
  exact coveredSpared (coveredOwnerSaved base owns saved) (appendAllSpares events) tail

theorem coveredEnrolled {scope : FamilyId} {m : FamilyMember} {saves : List Invitation} {events : List Event}
    {s t : Store} (kind : isActiveChild m = false) (covered : Covered s)
    (applied : applyAll apply (.saveMember scope m :: (saves.map (Statement.saveInvitation scope) ++ appendAll events)) s =
      some t) : Covered t := by
  obtain ⟨a,saved,tail⟩ := applyAllCons applied
  refine coveredSpared (coveredSaved covered kind saved) ?_ tail
  intro w mem
  rcases List.mem_append.mp mem with mem | mem
  · obtain ⟨v,-,rfl⟩ := List.mem_map.mp mem
    exact ⟨rfl,rfl⟩
  · exact appendAllSpares events w mem

theorem coveredBorn {i : Nat} {scope : FamilyId} {m : FamilyMember} {g : Guardianship} {events events' : List Event}
    {s t : Store} (covered : Covered s) (fresh : Fresh i s) (id : m.id = i) (own : g.id = i)
    (child : g.childMemberId = i) (active : g.isActive)
    (applied : applyAll apply (.saveMember scope m :: (appendAll events ++
      .saveGuardianship scope g :: appendAll events')) s = some t) : Covered t := by
  obtain ⟨a,saved,rest⟩ := applyAllCons applied
  rw [applyAllAppend] at rest
  obtain ⟨b,between,rest⟩ := Option.bind_eq_some_iff.mp rest
  obtain ⟨c,established,tail⟩ := applyAllCons rest
  exact coveredSpared (coveredChild covered fresh id own child active saved between established)
    (appendAllSpares events') tail

theorem coveredKept {i n : Nat} {batch : List Statement} {s t : Store} (_ : i < n) (_ : Numbered n s)
    (promise : Promise i s batch) (still : StillCovers batch s) (covered : Covered s)
    (applied : applyAll apply batch s = some t) : Covered t := by
  cases promise with
  | create events fresh family id member owns => exact coveredFounded owns covered applied
  | invite =>
    refine coveredSpared covered ?_ applied
    intro w mem
    rw [List.mem_singleton.mp mem]
    exact ⟨rfl,rfl⟩
  | enrol saves events fresh id role kind => exact coveredEnrolled kind covered applied
  | addChild events events' fresh id role own child active =>
    exact coveredBorn covered fresh id own child active applied
  | withdraw events kept role kind each =>
    rw [applyAllAppend] at applied
    obtain ⟨a,ended,rest⟩ := Option.bind_eq_some_iff.mp applied
    obtain ⟨b,saved,tail⟩ := applyAllCons rest
    exact coveredSpared (coveredSaved (coveredFinished covered each still ended) kind saved)
      (appendAllSpares events) tail
  | transfer events outgoing incoming owns role kind =>
    obtain ⟨a,first,rest⟩ := applyAllCons applied
    obtain ⟨b,second,tail⟩ := applyAllCons rest
    exact coveredSpared (coveredOwnerSaved (coveredSaved covered kind first) owns second)
      (appendAllSpares events) tail
  | grant events fresh own active =>
    obtain ⟨a,granted,tail⟩ := applyAllCons applied
    exact coveredSpared (coveredGranted covered (fun r mem => own ▸ fresh.guardianships r mem) granted)
      (appendAllSpares events) tail
  | @finish now scope g kept =>
    have each : ∀ h ∈ [g], GuardianshipKept s h ∧ h.guardianMemberId = g.guardianMemberId := by
      intro h mem
      rw [List.mem_singleton.mp mem]
      exact ⟨kept,rfl⟩
    have still' : StillCovers (finishEach now scope [g] ++ []) s := by simpa using still
    exact coveredFinished covered each still' applied

/-- Where the coverage check would pass again whenever a guardianship ends, every
committed state of every interleaving leaves each active child a guardian. -/
theorem runCovered {moves : List (Move Call)} {last : Interleaving.Config Store Statement Reply}
    (still : Within commands StillCovers (begins .empty) moves)
    (ran : run commands (begins .empty) moves = some last) : Covered last.store :=
  (runInvariant commandsHold coveredKept emptyNumbered
    (fun _ mem => (List.not_mem_nil mem).elim) still ran).2

def guardians : List (Move Call) :=
  [.begin (.createFamily 1 "Ann" "Home"),.advance 0,
    .begin (.createInvitation 0 0 0 ⟨"ben@example.org"⟩ .adult none "token"),
    .advance 1,.advance 1,.advance 1,.advance 1,
    .begin (.acceptInvitation 1 "token" 2 ⟨"ben@example.org"⟩),.advance 2,.advance 2,
    .begin (.addMember 0 0 .child "Cleo" none),.advance 3,.advance 3,
    .begin (.grantGuardianship 0 3 2),.advance 4,.advance 4,.advance 4,.advance 4]

def oneAfterOther : List (Move Call) := guardians ++
  [.begin (.endGuardianship 2 0 3 0),.begin (.endGuardianship 2 0 3 2),
    .advance 5,.advance 5,.advance 5,.advance 6,.advance 6]

theorem oneAfterOtherCovered :
    Reaches commands (begins .empty) oneAfterOther (fun c => Covered c.store) := by
  obtain ⟨last,ran⟩ := Option.isSome_iff_exists.mp
    (by decide +kernel : (run commands (begins .empty) oneAfterOther).isSome)
  exact ⟨last,ran,runCovered (by decide +kernel) ran⟩

/- Each of the two calls counts two guardians before the other commits. -/
def bothEnd : List (Move Call) := guardians ++
  [.begin (.endGuardianship 2 0 3 0),.begin (.endGuardianship 2 0 3 2),
    .advance 5,.advance 5,.advance 6,.advance 6,.advance 5,.advance 6]

theorem bothEndUncovered :
    Reaches commands (begins .empty) bothEnd (fun c => ¬ Covered c.store) := by
  decide +kernel

end FamilyPlatform.Membership
