import FamilyPlatform.Membership.Committed
import FamilyPlatform.Membership.Coverage
import FamilyPlatform.Membership.Ownership

/-! The rules of a household over any series of family commands: one owner, guardians
with authority, no child alone. A child that is added gets its adder as guardian, also
where the adder was removed meanwhile. -/
namespace FamilyPlatform.Membership
open Interleaving (applyAll applyAllAppend alone serial SerialWithin serialKeeps aloneProposes holdsProposes applyAllCons)

def StandingGuardian (scope : FamilyId) (id : FamilyMemberId) (s : Store) : Prop :=
  ∃ m ∈ s.members.rows, m.id = id ∧ m.familyId = scope ∧ m.isActive ∧ isEligibleGuardian m.kind m.role

def RecordedChild (scope : FamilyId) (id : FamilyMemberId) (s : Store) : Prop :=
  ∃ m ∈ s.members.rows, m.id = id ∧ m.familyId = scope ∧ m.kind = .child

/- FR-006. -/
def Guarded (s : Store) : Prop := ∀ g ∈ s.guardianships.rows, g.isActive →
  StandingGuardian g.familyId g.guardianMemberId s ∧ RecordedChild g.familyId g.childMemberId s

instance (scope id s) : Decidable (StandingGuardian scope id s) := by unfold StandingGuardian; infer_instance
instance (scope id s) : Decidable (RecordedChild scope id s) := by unfold RecordedChild; infer_instance
instance (s) : Decidable (Guarded s) := by unfold Guarded; infer_instance

structure Household (s : Store) : Prop where
  oneOwner : OneOwner s
  linked : ∀ m ∈ s.members.rows, m.isOwner → m.kind = .adult ∧ m.userId ≠ none
  guarded : Guarded s
  onePair : GuardianshipOneActivePerPair s.guardianships.rows
  covered : Covered s
  children : ∀ m ∈ s.members.rows, m.kind = .child → m.userId = none ∧ m.role = .viewer

/- The guard of the route finds the adder active; the command, some time later, does not ask. -/
def AdderStands : Call → Store → Prop
  | .addMember familyId addedBy .child displayName _, s => Text.trim displayName ≠ "" →
    ∀ adder ∈ findById familyId addedBy s, isEligibleGuardian adder.kind adder.role → adder.isActive
  | _, _ => True

instance (call s) : Decidable (AdderStands call s) := by
  unfold AdderStands
  split <;> infer_instance

theorem guardedSpared {batch : List Statement} {s t : Store} (guarded : Guarded s)
    (spares : ∀ w ∈ batch, sparesMembers w ∧ sparesGuardianships w)
    (applied : applyAll apply batch s = some t) : Guarded t := by
  have members := (membersSpared (fun w mem => (spares w mem).1) applied).2
  have guardianships := guardianshipsSpared (fun w mem => (spares w mem).2) applied
  unfold Guarded StandingGuardian RecordedChild
  rw [members,guardianships]
  exact guarded

def KeepsGuard (m : FamilyMember) (s : Store) : Prop :=
  ∀ r ∈ s.members.rows, r.id = m.id → (r.kind = .child → m.kind = .child) ∧
    (r.isActive → isEligibleGuardian r.kind r.role →
      m.isActive ∧ isEligibleGuardian m.kind m.role ∨
      ∀ g ∈ s.guardianships.rows, g.isActive → g.guardianMemberId = m.id → g.familyId ≠ m.familyId)

theorem guardedMember {scope : FamilyId} {m : FamilyMember} {s t : Store} (guarded : Guarded s)
    (keeps : KeepsGuard m s) (applied : apply (.saveMember scope m) s = some t) : Guarded t := by
  obtain ⟨rows,own,isolated,-,guardianships,-⟩ := memberSaved applied
  have saved : m ∈ t.members.rows := (rows m).mpr (.inr rfl)
  intro g mem active
  rw [guardianships] at mem
  obtain ⟨⟨r,there,id,family,stands,eligible⟩,⟨c,present,same,home,kind⟩⟩ := guarded g mem active
  constructor
  · by_cases replaced : r.id = m.id
    · have shared : m.familyId = g.familyId := own.trans ((isolated r there replaced).symm.trans family)
      rcases (keeps r there replaced).2 stands eligible with fit | none
      · exact ⟨m,saved,replaced.symm.trans id,shared,fit⟩
      · exact absurd shared.symm (none g mem active (id.symm.trans replaced))
    · exact ⟨r,(rows r).mpr (.inl ⟨there,replaced⟩),id,family,stands,eligible⟩
  · by_cases replaced : c.id = m.id
    · have shared : m.familyId = g.familyId := own.trans ((isolated c present replaced).symm.trans home)
      exact ⟨m,saved,replaced.symm.trans same,shared,(keeps c present replaced).1 kind⟩
    · exact ⟨c,(rows c).mpr (.inl ⟨present,replaced⟩),same,home,kind⟩

theorem guardedGranted {scope : FamilyId} {g : Guardianship} {s t : Store} (guarded : Guarded s)
    (fresh : ∀ r ∈ s.guardianships.rows, r.id ≠ g.id) (guardian : StandingGuardian g.familyId g.guardianMemberId s)
    (child : RecordedChild g.familyId g.childMemberId s)
    (applied : apply (.saveGuardianship scope g) s = some t) : Guarded t := by
  obtain ⟨rows,-,members,-⟩ := guardianshipSaved applied
  unfold Guarded StandingGuardian RecordedChild
  rw [members]
  intro x mem active
  obtain ⟨old,-⟩ | ⟨-,rfl⟩ | ⟨r,there,same,-⟩ := (rows x).mp mem
  · exact guarded x old active
  · exact ⟨guardian,child⟩
  · exact absurd same (fresh r there)

theorem finishedActive {now : Instant} {scope : FamilyId} {gs : List Guardianship} {s t : Store}
    (applied : applyAll apply (finishEach now scope gs) s = some t) :
    ∀ x ∈ t.guardianships.rows, x.isActive → x ∈ s.guardianships.rows ∧ ∀ g ∈ gs, x.id ≠ g.id := by
  induction gs generalizing s with
  | nil =>
    cases Option.some.inj applied
    exact fun x mem _ => ⟨mem,by simp⟩
  | cons g rest ih =>
    simp only [finishEach,List.map_cons,applyAll,bind,Option.bind_eq_some_iff] at applied
    obtain ⟨next,head,tail⟩ := applied
    obtain ⟨rows,-⟩ := guardianshipSaved head
    intro x mem active
    obtain ⟨there,others⟩ := ih tail x mem active
    obtain ⟨old,other⟩ | ⟨-,rfl⟩ | ⟨r,-,-,rfl⟩ := (rows x).mp there
    · exact ⟨old,List.forall_mem_cons.mpr ⟨other,others⟩⟩
    · cases active
    · cases active

theorem guardedFinished {now : Instant} {scope : FamilyId} {s t : Store} (gs : List Guardianship)
    (guarded : Guarded s) (applied : applyAll apply (finishEach now scope gs) s = some t) : Guarded t := by
  unfold Guarded StandingGuardian RecordedChild
  rw [(membersSpared (finishEachSpares now scope gs) applied).2]
  exact fun x mem active => guarded x (finishedActive applied x mem active).1 active

theorem withdrawnGone {now : Instant} {scope : FamilyId} {guardian : FamilyMemberId} {gs : List Guardianship}
    {s t : Store} (withdrawn : Withdrawn s scope guardian gs)
    (applied : applyAll apply (finishEach now scope gs) s = some t) :
    ∀ g ∈ t.guardianships.rows, g.isActive → g.guardianMemberId = guardian → g.familyId ≠ scope := by
  intro g mem active own family
  obtain ⟨there,others⟩ := finishedActive applied g mem active
  obtain ⟨h,listed,same⟩ := withdrawn.all g there family own active
  exact others h listed same.symm

theorem guardedWithdrawn {now : Instant} {scope : FamilyId} {member : FamilyMember} {gs : List Guardianship}
    {s t : Store} (next : FamilyMember) (events : List Event) (guarded : Guarded s) (there : member ∈ s.members.rows)
    (id : next.id = member.id) (family : next.familyId = scope) (kind : next.kind = member.kind)
    (fit : Withdrawn s scope member.id gs ∨
      (member.isActive → isEligibleGuardian member.kind member.role →
        next.isActive ∧ isEligibleGuardian next.kind next.role))
    (applied : applyAll apply (finishEach now scope gs ++ .saveMember scope next :: appendAll events) s = some t) :
    Guarded t := by
  rw [applyAllAppend] at applied
  obtain ⟨a,ended,rest⟩ := Option.bind_eq_some_iff.mp applied
  simp only [applyAll,bind,Option.bind_eq_some_iff] at rest
  obtain ⟨b,saved,tail⟩ := rest
  have members := (membersSpared (finishEachSpares now scope gs) ended).2
  refine guardedSpared (guardedMember (guardedFinished gs guarded ended) ?_ saved) (appendAllSpares events) tail
  intro r present same
  have own : r = member := Table.equalOfKey (members ▸ present) there (same.trans id)
  subst own
  refine ⟨fun child => kind.trans child,fun active eligible => ?_⟩
  rcases fit with withdrawn | fit
  · refine .inr (fun g mem alive guards => ?_)
    exact family ▸ withdrawnGone withdrawn ended g mem alive (guards.trans id)
  · exact .inl (fit active eligible)

theorem numberedKeeps {n : Nat} {m : FamilyMember} {s : Store} (numbered : Numbered n s) (id : m.id = n) :
    KeepsGuard m s :=
  fun r there same => absurd (same.trans id) (Nat.ne_of_lt (numbered.members r there))

theorem establishGuards {id scope guardian child kind g}
    (established : Guardianship.establish id scope guardian child kind = .ok g) :
    g = ⟨id,scope,guardian.id,child,none⟩ ∧ kind = .child ∧ isEligibleGuardian guardian.kind guardian.role := by
  simp only [Guardianship.establish] at established
  split at established <;> try contradiction
  rename_i child
  split at established <;> try contradiction
  rename_i eligible
  cases established
  exact ⟨rfl,not_not.mp child,by simpa using eligible⟩

theorem unlinkedNamed {id familyId kind raw birth m}
    (created : FamilyMember.createUnlinked id familyId kind raw birth = .ok m) :
    m.familyId = familyId ∧ Text.trim raw ≠ "" := by
  simp only [FamilyMember.createUnlinked] at created
  split at created <;> try contradiction
  rename_i named
  cases created
  exact ⟨rfl,named⟩

theorem guardedBorn {n : Nat} {scope : FamilyId} {adderId : FamilyMemberId} {adder m : FamilyMember}
    {g : Guardianship} {name : String} {birth : Option Instant} {s t : Store} (numbered : Numbered n s)
    (guarded : Guarded s) (made : FamilyMember.createUnlinked n scope .child name birth = .ok m)
    (found : findById scope adderId s = some adder)
    (established : Guardianship.establish n scope adder n m.kind = .ok g) (active : adder.isActive)
    (applied : applyAll apply [.saveMember scope m,.append (.memberAdded scope n m.kind m.role none),
      .saveGuardianship scope g,.append (.guardianshipEstablished scope g.guardianMemberId n)] s = some t) :
    Guarded t := by
  obtain ⟨rfl,-,eligible⟩ := establishGuards established
  obtain ⟨id,kind,-⟩ := createUnlinkedSource made
  obtain ⟨there,-,family⟩ := findByIdSource found
  simp only [applyAll,bind,Option.bind_eq_some_iff] at applied
  obtain ⟨a,saved,b,first,c,granted,d,second,last⟩ := applied
  cases Option.some.inj last
  obtain ⟨rows,-,-,-,guardianships,-⟩ := memberSaved saved
  obtain ⟨-,members,guardianships'⟩ := appended first
  have guarded' := guardedSpared (guardedMember guarded (numberedKeeps numbered id) saved)
    (appendAllSpares [_]) (by simpa [appendAll] using first)
  refine guardedSpared (guardedGranted guarded' ?_ ?_ ?_ granted) (appendAllSpares [_])
    (by simpa [appendAll] using second)
  · intro r present
    rw [guardianships',guardianships] at present
    exact Nat.ne_of_lt (numbered.guardianships r present)
  · refine ⟨adder,?_,rfl,family,active,eligible⟩
    rw [members]
    exact (rows adder).mpr (.inl ⟨there,fun same => Nat.ne_of_lt (numbered.members adder there) (same.trans id)⟩)
  · refine ⟨m,?_,id,(unlinkedNamed made).1,kind⟩
    rw [members]
    exact (rows m).mpr (.inr rfl)

theorem guardedTransferred {scope : FamilyId} {s t : Store} (before after : FamilyMember) (events : List Event)
    (guarded : Guarded s) (first : KeepsGuard before s) (second : ∀ r ∈ s.members.rows, r.id = after.id → r.kind ≠ .child)
    (other : before.id ≠ after.id) (owns : after.isOwner)
    (applied : applyAll apply (.saveMember scope before :: .saveMember scope after :: appendAll events) s = some t) :
    Guarded t := by
  obtain ⟨a,demoted,rest⟩ := applyAllCons applied
  obtain ⟨b,promoted,tail⟩ := applyAllCons rest
  obtain ⟨rows,-⟩ := memberSaved demoted
  refine guardedSpared (guardedMember (guardedMember guarded first demoted) ?_ promoted) (appendAllSpares events) tail
  have saved : after ∈ b.members.rows := ((memberSaved promoted).1 after).mpr (.inr rfl)
  simp only [FamilyMember.isOwner,Bool.and_eq_true,decide_eq_true_eq] at owns
  have adult := ((b.legal.members after saved).2.2.1 owns.2).2
  intro r mem same
  obtain ⟨old,-⟩ | rfl := (rows r).mp mem
  · exact ⟨fun child => absurd child (second r old same),
      fun _ _ => .inl ⟨owns.1,by simp [isEligibleGuardian,owns.2,adult]⟩⟩
  · exact absurd same other

theorem guardedFounded {n : Nat} {userId : UserId} {display : String} {f : Family} {owner : FamilyMember}
    {events : List Event} {s t : Store} (numbered : Numbered n s) (guarded : Guarded s)
    (made : FamilyMember.createOwner n n userId display = .ok owner)
    (applied : applyAll apply (.saveFamily n f :: .saveMember n owner :: appendAll events) s = some t) : Guarded t := by
  obtain ⟨id,-⟩ := createOwnerSource made
  obtain ⟨a,created,rest⟩ := applyAllCons applied
  obtain ⟨b,saved,tail⟩ := applyAllCons rest
  obtain ⟨-,members,guardianships,-⟩ := familySaved created
  have guarded' : Guarded a := by
    unfold Guarded StandingGuardian RecordedChild
    rw [members,guardianships]
    exact guarded
  have keeps : KeepsGuard owner a := by
    unfold KeepsGuard
    rw [members,guardianships]
    exact numberedKeeps numbered id
  exact guardedSpared (guardedMember guarded' keeps saved) (appendAllSpares events) tail

theorem ownerKeepsGuard {owner : FamilyMember} {s : Store} (present : owner ∈ s.members.rows)
    (role : owner.role = .owner) : KeepsGuard { owner with role := .adult } s := by
  have kind := ((s.legal.members owner present).2.2.1 role).2
  intro r mem same
  have own : r = owner := Table.equalOfKey mem present same
  subst own
  exact ⟨fun child => child,fun alive _ => .inl ⟨alive,by simp [isEligibleGuardian,kind]⟩⟩

theorem guardedKept {n : Nat} {call : Call} {batch : List Statement} {s t : Store} (numbered : Numbered n s)
    (stands : AdderStands call s) (guarded : Guarded s) (committed : Committed n s call batch)
    (applied : applyAll apply batch s = some t) : Guarded t := by
  cases committed with
  | founded family made => exact @guardedFounded _ _ _ _ _ [_,_] _ _ numbered guarded made applied
  | invited => exact guardedSpared guarded (by simp [sparesMembers,sparesGuardianships]) applied
  | joined made =>
    obtain ⟨a,saved,tail⟩ := applyAllCons applied
    exact guardedSpared (guardedMember guarded (numberedKeeps numbered (createFromInvitationSource made).1) saved)
      (by simp [sparesMembers,sparesGuardianships]) tail
  | enrolled made grown =>
    obtain ⟨a,saved,tail⟩ := applyAllCons applied
    exact guardedSpared (guardedMember guarded (numberedKeeps numbered (createUnlinkedSource made).1) saved)
      (appendAllSpares [_]) tail
  | born made found established =>
    have active := stands (unlinkedNamed made).2 _ found (establishGuards established).2.2
    exact guardedBorn numbered guarded made found established active applied
  | @changed now scope id member role next gs found active ok withdrawn =>
    obtain ⟨there,-,family⟩ := findByIdSource found
    obtain ⟨rfl,-⟩ := changeRoleSource ok
    refine guardedWithdrawn { member with role } [_] guarded there rfl family rfl ?_ applied
    rcases withdrawn with withdrawn | ⟨-,unfit | fit⟩
    · exact .inl withdrawn
    · exact .inr (fun _ eligible => by rw [unfit] at eligible; cases eligible)
    · exact .inr (fun alive _ => ⟨alive,fit⟩)
  | @removed now scope id member gs found active role withdrawn =>
    obtain ⟨there,-,family⟩ := findByIdSource found
    exact guardedWithdrawn (member.remove now) [_] guarded there rfl family rfl (.inl withdrawn) applied
  | @transferred scope id newOwner currentOwner promoted demoted found active current owner different promote demote =>
    obtain ⟨there,-,-⟩ := findByIdSource found
    obtain ⟨rfl,adult⟩ := promoteSource promote
    obtain ⟨rfl,-⟩ := demoteSource demote
    refine guardedTransferred { currentOwner with role := .adult } { newOwner with role := .owner } [_,_] guarded
      (ownerKeepsGuard (List.mem_of_mem_filter current) owner) ?_ different ?_ applied
    · intro r mem same child
      have own : r = newOwner := Table.equalOfKey mem there same
      subst own
      rw [adult] at child
      cases child
    · simpa [FamilyMember.isOwner,FamilyMember.isActive] using active
  | granted foundChild activeChild kind found active established =>
    obtain ⟨rfl,-,eligible⟩ := establishGuards established
    obtain ⟨there,-,family⟩ := findByIdSource found
    obtain ⟨present,-,home⟩ := findByIdSource foundChild
    obtain ⟨a,saved,tail⟩ := applyAllCons applied
    exact guardedSpared (guardedGranted guarded (fun r mem => Nat.ne_of_lt (numbered.guardianships r mem))
      ⟨_,there,rfl,family,active,eligible⟩ ⟨_,present,rfl,home,kind⟩ saved) (appendAllSpares [_]) tail
  | @ended now scope guardian child g found covered =>
    exact guardedFinished [g] guarded applied

theorem committedSpares {n : Nat} {call : Call} {batch : List Statement} {s : Store} (numbered : Numbered n s)
    (committed : Committed n s call batch) : SparesOwners batch s := by
  have fresh (m : FamilyMember) (id : m.id = n) (P : Prop) : (∃ o ∈ s.members.rows, o.id = m.id ∧ o.isOwner) → P := by
    rintro ⟨o,there,same,-⟩
    exact absurd (same.trans id) (Nat.ne_of_lt (numbered.members o there))
  have ended (now scope gs) (whole : List Statement) : ∀ w ∈ finishEach now scope gs, SparesOwner whole s w := by
    intro w mem
    obtain ⟨g,-,rfl⟩ := List.mem_map.mp mem
    trivial
  cases committed with
  | founded family made =>
    simp only [SparesOwners,List.forall_mem_cons,SparesOwner]
    exact ⟨trivial,fresh _ (createOwnerSource made).1 _,trivial,trivial,by simp⟩
  | invited => simp [SparesOwners,SparesOwner]
  | joined made =>
    simp only [SparesOwners,List.forall_mem_cons,SparesOwner]
    exact ⟨fresh _ (createFromInvitationSource made).1 _,trivial,trivial,by simp⟩
  | enrolled made grown =>
    simp only [SparesOwners,List.forall_mem_cons,SparesOwner]
    exact ⟨fresh _ (createUnlinkedSource made).1 _,trivial,by simp⟩
  | born made found established =>
    simp only [SparesOwners,List.forall_mem_cons,SparesOwner]
    exact ⟨fresh _ (createUnlinkedSource made).1 _,trivial,trivial,trivial,by simp⟩
  | @changed now scope id member role next gs found active ok withdrawn =>
    obtain ⟨there,-,-⟩ := findByIdSource found
    obtain ⟨rfl,-,-,owner⟩ := changeRoleSource ok
    simp only [SparesOwners,List.forall_mem_append,List.forall_mem_cons]
    refine ⟨ended _ _ _ _,?_,trivial,by simp⟩
    rintro ⟨o,mem,same,owns⟩
    have own : o = member := Table.equalOfKey mem there same
    simp [own,FamilyMember.isOwner,owner] at owns
  | @removed now scope id member gs found active role withdrawn =>
    obtain ⟨there,-,-⟩ := findByIdSource found
    simp only [SparesOwners,List.forall_mem_append,List.forall_mem_cons]
    refine ⟨ended _ _ _ _,?_,trivial,by simp⟩
    rintro ⟨o,mem,same,owns⟩
    have own : o = member := Table.equalOfKey mem there same
    simp [own,FamilyMember.isOwner,role] at owns
  | @transferred scope id newOwner currentOwner promoted demoted found active current owner different promote demote =>
    obtain ⟨rfl,-⟩ := promoteSource promote
    have owns : FamilyMember.isOwner { newOwner with role := .owner } := by
      simpa [FamilyMember.isOwner,FamilyMember.isActive] using active
    simp only [SparesOwners,List.forall_mem_cons,SparesOwner,List.any_cons,savesOwner,owns]
    simp
  | granted foundChild activeChild kind found active established => simp [SparesOwners,SparesOwner]
  | ended found covered => simp [SparesOwners,SparesOwner]

theorem finishedCovers {now : Instant} {scope : FamilyId} {gs : List Guardianship} {rest : List Statement} {s : Store}
    (guarded : Guarded s) (there : ∀ g ∈ gs, g ∈ s.guardianships.rows ∧ g.familyId = scope)
    (covered : ∀ g ∈ gs, (assertGuardianCoverage ((countActiveForChild scope g.childMemberId s : Int) - 1)).isOk)
    (ends : ∀ id, rest.any (endsGuardianship id) = false) : StillCovers (finishEach now scope gs ++ rest) s := by
  intro g listed active closes m mem same child
  rw [List.any_append,ends,Bool.or_false] at closes
  obtain ⟨w,written,ending⟩ := List.any_eq_true.mp closes
  obtain ⟨h,source,rfl⟩ := List.mem_map.mp written
  simp only [endsGuardianship,Guardianship.finish,Bool.and_eq_true] at ending
  obtain ⟨present,family⟩ := there h source
  have own : h = g := Table.equalOfKey present listed (of_decide_eq_true ending.1)
  subst own
  obtain ⟨c,recorded,id,home,-⟩ := (guarded h listed active).2
  have row : c = m := Table.equalOfKey recorded mem (id.trans same.symm)
  have margin := covered h source
  rw [← family,← same,← home,row] at margin
  exact margin

theorem committedCovers {n : Nat} {call : Call} {batch : List Statement} {s : Store} (guarded : Guarded s)
    (committed : Committed n s call batch) : StillCovers batch s := by
  have ended {now scope guardian gs rest} (withdrawn : Withdrawn s scope guardian gs)
      (ends : ∀ id, rest.any (endsGuardianship id) = false) : StillCovers (finishEach now scope gs ++ rest) s :=
    finishedCovers guarded (fun g mem => ⟨(withdrawn.there g mem).1,(withdrawn.there g mem).2.1⟩) withdrawn.covered ends
  have spared {batch : List Statement} (ends : ∀ id, batch.any (endsGuardianship id) = false) : StillCovers batch s := by
    intro g there active closes
    rw [ends] at closes
    cases closes
  cases committed with
  | founded | invited | joined | enrolled => exact spared (by simp [endsGuardianship])
  | born made found established =>
    obtain ⟨rfl,-⟩ := establishGuards established
    exact spared (by simp [endsGuardianship,Guardianship.isActive])
  | transferred => exact spared (by simp [endsGuardianship])
  | granted foundChild activeChild kind found active established =>
    obtain ⟨rfl,-⟩ := establishGuards established
    exact spared (by simp [endsGuardianship,Guardianship.isActive])
  | changed found active ok withdrawn =>
    rcases withdrawn with withdrawn | ⟨rfl,-⟩
    · exact ended withdrawn (by simp [endsGuardianship])
    · exact spared (by simp [finishEach,endsGuardianship])
  | removed found active role withdrawn => exact ended withdrawn (by simp [endsGuardianship])
  | @ended now scope guardian child g found covered =>
    obtain ⟨there,own,of⟩ := findActiveSource found
    have source := List.find?_some found
    simp only [Bool.and_eq_true,decide_eq_true_eq] at source
    have still : StillCovers (finishEach now scope [g] ++ []) s :=
      finishedCovers guarded (by simpa using ⟨there,source.1.1.1⟩) (by simpa [of] using covered) (by simp)
    simpa [finishEach] using still

structure Kept (n : Nat) (s : Store) : Prop where
  numbered : Numbered n s
  hasOwner : HasOwner s
  covered : Covered s
  guarded : Guarded s

theorem keptHousehold {n : Nat} {s : Store} (kept : Kept n s) : Household s where
  oneOwner := hasOwnerOne kept.hasOwner
  linked := by
    intro m mem owns
    simp only [FamilyMember.isOwner,Bool.and_eq_true,decide_eq_true_eq] at owns
    exact ((s.legal.members m mem).2.2.1 owns.2).symm
  guarded := kept.guarded
  onePair := s.legal.onePair
  covered := kept.covered
  children := fun m mem child => ⟨(s.legal.members m mem).1 child,(s.legal.members m mem).2.1 child⟩

theorem keptEmpty : Kept 0 Store.empty :=
  ⟨emptyNumbered,fun _ mem => (List.not_mem_nil mem).elim,fun _ mem => (List.not_mem_nil mem).elim,
    fun _ mem => (List.not_mem_nil mem).elim⟩

theorem keptNext (n : Nat) (s : Store) (call : Call) (kept : Kept n s) (stands : AdderStands call s) :
    Kept (n + 1) (alone commands.apply (commands.start call n) s).2 := by
  have numbered : Numbered (n + 1) s := discipline.issue kept.numbered
  have proposes := holdsProposes (d := discipline) (Nat.lt_succ_self n) numbered
    (commandsHold n s call kept.numbered) (commandsPropose call)
  rcases aloneProposes apply proposes with same | ⟨batch,⟨committed,promise⟩,applied⟩
  · rw [show (alone commands.apply (commands.start call n) s).2 = s from same]
    exact ⟨numbered,kept.hasOwner,kept.covered,kept.guarded⟩
  · have lt := Nat.lt_succ_self n
    refine ⟨(discipline.keeps lt numbered promise applied).1,?_,?_,?_⟩
    · exact hasOwnerKept lt numbered promise (committedSpares kept.numbered committed) kept.hasOwner applied
    · exact coveredKept lt numbered promise (committedCovers kept.guarded committed) kept.covered applied
    · exact guardedKept kept.numbered stands kept.guarded committed applied

/-- Where every child is added by a member who still stands, the rules of the household
hold after any series of commands. -/
theorem serialHousehold {calls : List Call} (stands : SerialWithin commands AdderStands 0 .empty calls) :
    Household (serial commands 0 .empty calls).2 :=
  keptHousehold (serialKeeps keptNext keptEmpty stands)

def couple : List Call :=
  [.createFamily 1 "Ann" "Home",.createInvitation 0 0 0 ⟨"ben@example.org"⟩ .adult none "token",
    .acceptInvitation 1 "token" 2 ⟨"ben@example.org"⟩]

theorem cleoGuarded : Household (serial commands 0 .empty (couple ++ [.addMember 0 2 .child "Cleo" none])).2 :=
  serialHousehold (by decide +kernel)

/- Ben is removed between the guard and his command. -/
theorem cleoUnguarded : ¬ Household (serial commands 0 .empty
    (couple ++ [.removeMember 2 0 2,.addMember 0 2 .child "Cleo" none])).2 := by
  intro household
  exact absurd household.guarded (by decide +kernel)

end FamilyPlatform.Membership
