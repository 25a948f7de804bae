import FamilyPlatform.Membership.Household

/-! What a removed child leaves behind. Its guardianships stay active, the coverage check
counts them, and whoever is the last guardian of it is refused for its sake. -/
namespace FamilyPlatform.Membership
open Interleaving (applyAll applyAllAppend applyAllCons alone serial SerialWithin serialKeeps aloneProposes holdsProposes)

def checksCoverage : Call → Bool
  | .changeMemberRole .. | .removeMember .. | .endGuardianship .. => true
  | _ => false

def wouldEnd : Call → Guardianship → Bool
  | .changeMemberRole _ familyId memberId _,g => g.familyId = familyId && g.guardianMemberId = memberId
  | .removeMember _ familyId memberId,g => g.familyId = familyId && g.guardianMemberId = memberId
  | .endGuardianship _ familyId child guardian,g =>
    g.familyId = familyId && g.guardianMemberId = guardian && g.childMemberId = child
  | _,_ => false

def activeGuardianships (s : Store) (m : FamilyMember) : List Guardianship :=
  s.guardianships.rows.filter (fun g => g.familyId = m.familyId && g.childMemberId = m.id && g.isActive)

/- The member has active guardianships, and has none once those of the call are ended. -/
def Deserts (call : Call) (s : Store) (m : FamilyMember) : Prop :=
  activeGuardianships s m ≠ [] ∧ (activeGuardianships s m).all (wouldEnd call)

instance (call s m) : Decidable (Deserts call s m) := by unfold Deserts; infer_instance

def LastGuardianReturned (n : Nat) (s : Store) (call : Call) : Prop :=
  checksCoverage call ∧ (alone commands.apply (commands.start call n) s).1 = some (.failed .lastGuardian)

def DesertsActive (call : Call) (s : Store) : Prop := ∃ m ∈ s.members.rows, isActiveChild m ∧ Deserts call s m

def DesertsRemoved (call : Call) (s : Store) : Prop :=
  ∃ m ∈ s.members.rows, m.kind = .child ∧ m.isActive = false ∧ Deserts call s m

instance (n s call) : Decidable (LastGuardianReturned n s call) := by unfold LastGuardianReturned; infer_instance
instance (call s) : Decidable (DesertsActive call s) := by unfold DesertsActive; infer_instance
instance (call s) : Decidable (DesertsRemoved call s) := by unfold DesertsRemoved; infer_instance

def Counts (s : Store) : Call → Prop
  | .changeMemberRole _ familyId memberId newRole => ∃ member ∈ findById familyId memberId s,
    member.isActive ∧ isEligibleGuardian member.kind member.role ∧ isEligibleGuardian member.kind newRole = false
  | .removeMember _ familyId memberId => ∃ member ∈ findById familyId memberId s,
    member.isActive ∧ member.role ≠ .owner
  | .endGuardianship .. => True
  | _ => False

/- No call of the run takes a child out of its family. -/
def KeepsChildren : Call → Store → Prop
  | .removeMember _ familyId memberId, s => ∀ member ∈ findById familyId memberId s, member.kind ≠ .child
  | _, _ => True

instance (call s) : Decidable (KeepsChildren call s) := by
  unfold KeepsChildren
  split <;> infer_instance

def Watched (stay : Prop) (s : Store) : Prop := ∀ g ∈ s.guardianships.rows, g.isActive →
  ∃ m ∈ s.members.rows, m.id = g.childMemberId ∧ m.familyId = g.familyId ∧ m.kind = .child ∧ (stay → m.isActive)

section
variable {stay : Prop} {s t : Store}

theorem watchedSpared {batch : List Statement} (watched : Watched stay s)
    (spares : ∀ w ∈ batch, sparesMembers w ∧ sparesGuardianships w)
    (applied : applyAll apply batch s = some t) : Watched stay t := by
  have members := (membersSpared (fun w mem => (spares w mem).1) applied).2
  have guardianships := guardianshipsSpared (fun w mem => (spares w mem).2) applied
  unfold Watched
  rw [members,guardianships]
  exact watched

theorem watchedMember {scope : FamilyId} {m : FamilyMember} (watched : Watched stay s)
    (keeps : ∀ r ∈ s.members.rows, r.id = m.id → r.kind = .child → m.kind = .child ∧ (stay → r.isActive → m.isActive))
    (applied : apply (.saveMember scope m) s = some t) : Watched stay t := by
  obtain ⟨rows,own,isolated,-,guardianships,-⟩ := memberSaved applied
  intro g mem active
  rw [guardianships] at mem
  obtain ⟨c,present,id,home,kind,stands⟩ := watched g mem active
  by_cases replaced : c.id = m.id
  · obtain ⟨child,alive⟩ := keeps c present replaced kind
    have shared : m.familyId = g.familyId := own.trans ((isolated c present replaced).symm.trans home)
    exact ⟨m,(rows m).mpr (.inr rfl),replaced.symm.trans id,shared,child,fun is => alive is (stands is)⟩
  · exact ⟨c,(rows c).mpr (.inl ⟨present,replaced⟩),id,home,kind,stands⟩

theorem watchedGranted {scope : FamilyId} {g : Guardianship} {child : FamilyMember} (watched : Watched stay s)
    (fresh : ∀ r ∈ s.guardianships.rows, r.id ≠ g.id) (there : child ∈ s.members.rows) (id : child.id = g.childMemberId)
    (home : child.familyId = g.familyId) (kind : child.kind = .child) (active : child.isActive)
    (applied : apply (.saveGuardianship scope g) s = some t) : Watched stay t := by
  obtain ⟨rows,-,members,-⟩ := guardianshipSaved applied
  unfold Watched
  rw [members]
  intro x mem alive
  obtain ⟨old,-⟩ | ⟨-,rfl⟩ | ⟨r,present,same,-⟩ := (rows x).mp mem
  · exact watched x old alive
  · exact ⟨child,there,id,home,kind,fun _ => active⟩
  · exact absurd same (fresh r present)

theorem watchedFinished {now : Instant} {scope : FamilyId} {gs : List Guardianship} (watched : Watched stay s)
    (applied : applyAll apply (finishEach now scope gs) s = some t) : Watched stay t := by
  unfold Watched
  rw [(membersSpared (finishEachSpares now scope gs) applied).2]
  exact fun x mem active => watched x (finishedActive applied x mem active).1 active

theorem watchedWithdrawn {now : Instant} {scope : FamilyId} {member : FamilyMember} {gs : List Guardianship}
    (next : FamilyMember) (events : List Event) (watched : Watched stay s) (there : member ∈ s.members.rows)
    (id : next.id = member.id) (kind : next.kind = member.kind)
    (alive : member.kind = .child → stay → member.isActive → next.isActive)
    (applied : applyAll apply (finishEach now scope gs ++ .saveMember scope next :: appendAll events) s = some t) :
    Watched stay t := by
  rw [applyAllAppend] at applied
  obtain ⟨a,ended,rest⟩ := Option.bind_eq_some_iff.mp applied
  obtain ⟨b,saved,tail⟩ := applyAllCons rest
  have members := (membersSpared (finishEachSpares now scope gs) ended).2
  refine watchedSpared (watchedMember (watchedFinished watched ended) ?_ saved) (appendAllSpares events) tail
  intro r present same child
  have own : r = member := Table.equalOfKey (members ▸ present) there (same.trans id)
  subst own
  exact ⟨kind.trans child,alive child⟩

theorem numberedSpares {n : Nat} {m : FamilyMember} (numbered : Numbered n s) (id : m.id = n) :
    ∀ r ∈ s.members.rows, r.id = m.id → r.kind = .child → m.kind = .child ∧ (stay → r.isActive → m.isActive) :=
  fun r there same => absurd (same.trans id) (Nat.ne_of_lt (numbered.members r there))

theorem unlinkedStands {id familyId kind raw birth m}
    (created : FamilyMember.createUnlinked id familyId kind raw birth = .ok m) : m.isActive := by
  simp only [FamilyMember.createUnlinked] at created
  split at created
  · cases created
  · cases created
    rfl

theorem watchedFounded {n : Nat} {userId : UserId} {display : String} {f : Family} {owner : FamilyMember}
    {events : List Event} (numbered : Numbered n s) (watched : Watched stay s)
    (made : FamilyMember.createOwner n n userId display = .ok owner)
    (applied : applyAll apply (.saveFamily n f :: .saveMember n owner :: appendAll events) s = some t) :
    Watched stay t := by
  obtain ⟨id,-⟩ := createOwnerSource made
  obtain ⟨a,created,rest⟩ := applyAllCons applied
  obtain ⟨b,saved,tail⟩ := applyAllCons rest
  obtain ⟨-,members,guardianships,-⟩ := familySaved created
  have watched' : Watched stay a := by
    unfold Watched
    rw [members,guardianships]
    exact watched
  refine watchedSpared (watchedMember watched' ?_ saved) (appendAllSpares events) tail
  rw [members]
  exact numberedSpares numbered id

theorem watchedBorn {n : Nat} {scope : FamilyId} {m adder : FamilyMember} {g : Guardianship} {name : String}
    {birth : Option Instant} {before after : List Event} (numbered : Numbered n s) (watched : Watched stay s)
    (made : FamilyMember.createUnlinked n scope .child name birth = .ok m)
    (established : Guardianship.establish n scope adder n m.kind = .ok g)
    (applied : applyAll apply (.saveMember scope m :: (appendAll before ++ .saveGuardianship scope g :: appendAll after)) s =
      some t) : Watched stay t := by
  obtain ⟨rfl,-⟩ := establishGuards established
  obtain ⟨id,kind,-⟩ := createUnlinkedSource made
  obtain ⟨a,saved,rest⟩ := applyAllCons applied
  rw [applyAllAppend] at rest
  obtain ⟨b,first,rest⟩ := Option.bind_eq_some_iff.mp rest
  obtain ⟨c,granted,tail⟩ := applyAllCons rest
  obtain ⟨rows,-,-,-,guardianships,-⟩ := memberSaved saved
  have spares := appendAllSpares before
  have members := (membersSpared (fun w mem => (spares w mem).1) first).2
  have guardianships' := guardianshipsSpared (fun w mem => (spares w mem).2) first
  have watched' := watchedSpared (watchedMember watched (numberedSpares numbered id) saved) spares first
  refine watchedSpared (@watchedGranted _ _ _ _ _ m watched' ?_ ?_ id (unlinkedNamed made).1 kind
    (unlinkedStands made) granted) (appendAllSpares after) tail
  · intro r present
    rw [guardianships',guardianships] at present
    exact Nat.ne_of_lt (numbered.guardianships r present)
  · rw [members]
    exact (rows m).mpr (.inr rfl)

theorem watchedTransferred {scope : FamilyId} {newOwner currentOwner promoted demoted : FamilyMember}
    {events : List Event} (watched : Watched stay s) (there : newOwner ∈ s.members.rows)
    (present : currentOwner ∈ s.members.rows) (different : currentOwner.id ≠ newOwner.id)
    (promote : newOwner.promoteToOwner = .ok promoted) (demote : currentOwner.demoteFromOwnership = .ok demoted)
    (applied : applyAll apply (.saveMember scope demoted :: .saveMember scope promoted :: appendAll events) s = some t) :
    Watched stay t := by
  obtain ⟨rfl,adult⟩ := promoteSource promote
  obtain ⟨rfl,-⟩ := demoteSource demote
  obtain ⟨a,demoted,rest⟩ := applyAllCons applied
  obtain ⟨b,promoted,tail⟩ := applyAllCons rest
  obtain ⟨rows,-⟩ := memberSaved demoted
  refine watchedSpared (watchedMember (watchedMember watched ?_ demoted) ?_ promoted) (appendAllSpares events) tail
  · intro r mem same child
    have own : r = currentOwner := Table.equalOfKey mem present same
    subst own
    exact ⟨child,fun _ alive => alive⟩
  · intro r mem same child
    obtain ⟨old,-⟩ | rfl := (rows r).mp mem
    · have own : r = newOwner := Table.equalOfKey old there same
      subst own
      exact ⟨child,fun _ alive => alive⟩
    · exact absurd same different

theorem watchedKept {n : Nat} {call : Call} {batch : List Statement} (numbered : Numbered n s)
    (keeps : stay → KeepsChildren call s) (watched : Watched stay s) (committed : Committed n s call batch)
    (applied : applyAll apply batch s = some t) : Watched stay t := by
  cases committed with
  | founded family made => exact @watchedFounded _ _ _ _ _ _ _ _ [_,_] numbered watched made applied
  | invited => exact watchedSpared watched (by simp [sparesMembers,sparesGuardianships]) applied
  | joined made =>
    obtain ⟨a,saved,tail⟩ := applyAllCons applied
    exact watchedSpared (watchedMember watched (numberedSpares numbered (createFromInvitationSource made).1) saved)
      (by simp [sparesMembers,sparesGuardianships]) tail
  | enrolled made grown =>
    obtain ⟨a,saved,tail⟩ := applyAllCons applied
    exact watchedSpared (watchedMember watched (numberedSpares numbered (createUnlinkedSource made).1) saved)
      (appendAllSpares [_]) tail
  | born made found established =>
    exact @watchedBorn _ _ _ _ _ _ _ _ _ _ [_] [_] numbered watched made established applied
  | @changed now scope id member role next gs found active ok withdrawn =>
    obtain ⟨there,-,-⟩ := findByIdSource found
    obtain ⟨rfl,-⟩ := changeRoleSource ok
    exact watchedWithdrawn { member with role } [_] watched there rfl rfl (fun _ _ alive => alive) applied
  | @removed now scope id member gs found active role withdrawn =>
    obtain ⟨there,-,-⟩ := findByIdSource found
    refine watchedWithdrawn (member.remove now) [_] watched there rfl rfl ?_ applied
    exact fun child is => absurd child (keeps is member found)
  | transferred found active current owner different promote demote =>
    exact @watchedTransferred _ _ _ _ _ _ _ _ [_,_] watched (findByIdSource found).1 (List.mem_of_mem_filter current)
      different promote demote applied
  | granted foundChild activeChild kind found active established =>
    obtain ⟨rfl,-⟩ := establishGuards established
    obtain ⟨present,-,home⟩ := findByIdSource foundChild
    obtain ⟨a,saved,tail⟩ := applyAllCons applied
    exact watchedSpared (watchedGranted watched (fun r mem => Nat.ne_of_lt (numbered.guardianships r mem)) present rfl
      home kind activeChild saved) (appendAllSpares [_]) tail
  | @ended now scope guardian child g found covered => exact @watchedFinished _ _ _ now scope [g] watched applied

theorem watchedNext (n : Nat) (call : Call) (numbered : Numbered n s) (watched : Watched stay s)
    (keeps : stay → KeepsChildren call s) :
    Numbered (n + 1) (alone commands.apply (commands.start call n) s).2 ∧
      Watched stay (alone commands.apply (commands.start call n) s).2 := by
  have later : Numbered (n + 1) s := discipline.issue numbered
  have proposes := holdsProposes (d := discipline) (Nat.lt_succ_self n) later
    (commandsHold n s call numbered) (commandsPropose call)
  rcases aloneProposes apply proposes with same | ⟨batch,⟨committed,promise⟩,applied⟩
  · rw [show (alone commands.apply (commands.start call n) s).2 = s from same]
    exact ⟨later,watched⟩
  · exact ⟨(discipline.keeps (Nat.lt_succ_self n) later promise applied).1,
      watchedKept numbered keeps watched committed applied⟩

theorem serialWatched {calls : List Call}
    (keeps : SerialWithin commands (fun call s => stay → KeepsChildren call s) 0 .empty calls) :
    Watched stay (serial commands 0 .empty calls).2 := by
  have base : Numbered 0 Store.empty ∧ Watched stay Store.empty :=
    ⟨emptyNumbered,fun _ mem => (List.not_mem_nil mem).elim⟩
  exact (serialKeeps (fun n s call (good : Numbered n s ∧ Watched stay s) allowed =>
    watchedNext n call good.1 good.2 allowed) base keeps).2

theorem coverageRefused {count : Nat} :
    assertGuardianCoverage ((count : Int) - 1) = .error .lastGuardian ↔ count ≤ 1 := by
  unfold assertGuardianCoverage
  split
  · simp only [true_iff]
    omega
  · simp only [reduceCtorEq,false_iff]
    omega

theorem coverEachAlone {familyId : FamilyId} {next : Script} {children : List FamilyMemberId}
    (never : (alone apply next s).1 ≠ some (.failed .lastGuardian)) :
    (alone apply (coverEach familyId next children) s).1 = some (.failed .lastGuardian) ↔
      ∃ child ∈ children, countActiveForChild familyId child s ≤ 1 := by
  induction children with
  | nil => simpa [coverEach] using never
  | cons child rest ih =>
    simp only [coverEach,alone,List.exists_mem_cons_iff]
    by_cases few : countActiveForChild familyId child s ≤ 1
    · rw [coverageRefused.mpr few]
      simp [fail,alone,few]
    · have ok : assertGuardianCoverage ((countActiveForChild familyId child s : Int) - 1) = .ok () := by
        unfold assertGuardianCoverage
        rw [if_neg (by omega)]
      rw [ok]
      simpa [few] using ih

theorem findEachAlone {familyId : FamilyId} {guardian : FamilyMemberId} {next : List Guardianship → Script}
    {children : List FamilyMemberId} {found : List Guardianship}
    (never : ∀ gs, (alone apply (next gs) s).1 ≠ some (.failed .lastGuardian)) :
    (alone apply (findEach familyId guardian next children found) s).1 ≠ some (.failed .lastGuardian) := by
  induction children generalizing found with
  | nil => exact never found
  | cons child rest ih =>
    simp only [findEach,alone]
    split
    · exact ih
    · exact ih

theorem saveAlone {batch : List Statement} : (alone apply (save batch .done) s).1 ≠ some (.failed .lastGuardian) := by
  simp only [save,alone]
  split <;> simp

theorem saveRoleChangeAlone {now : Instant} {familyId : FamilyId} {member : FamilyMember} {newRole : MemberRole}
    {gs : List Guardianship} :
    (alone apply (saveRoleChange now familyId member newRole gs) s).1 ≠ some (.failed .lastGuardian) := by
  unfold saveRoleChange
  split
  · rename_i e refused
    have other : e ≠ .lastGuardian := by
      rintro rfl
      simp only [FamilyMember.changeRole] at refused
      split_ifs at refused <;> cases refused
    simpa [fail,alone] using other
  · exact saveAlone

theorem fewGuarded {scope : FamilyId} {guardian : FamilyMemberId} :
    (∃ child ∈ listActiveChildIdsGuardedBy scope guardian s, countActiveForChild scope child s ≤ 1) ↔
      ∃ g ∈ s.guardianships.rows, g.familyId = scope ∧ g.guardianMemberId = guardian ∧ g.isActive ∧
        countActiveForChild scope g.childMemberId s ≤ 1 := by
  simp only [listActiveChildIdsGuardedBy,List.mem_map,List.mem_filter,Bool.and_eq_true,decide_eq_true_eq]
  constructor
  · rintro ⟨child,⟨g,⟨mem,⟨family,own⟩,active⟩,rfl⟩,few⟩
    exact ⟨g,mem,family,own,active,few⟩
  · rintro ⟨g,mem,family,own,active,few⟩
    exact ⟨_,⟨g,⟨mem,⟨family,own⟩,active⟩,rfl⟩,few⟩

/- Such a guardianship, for each of the three commands. -/
def LastEnds (call : Call) (s : Store) : Prop := ∃ g ∈ s.guardianships.rows, g.isActive ∧ wouldEnd call g ∧
  countActiveForChild g.familyId g.childMemberId s ≤ 1

theorem lastEndsHeld {call : Call} {scope : FamilyId} {guardian : FamilyMemberId}
    (ends : ∀ g, wouldEnd call g ↔ g.familyId = scope ∧ g.guardianMemberId = guardian) :
    LastEnds call s ↔ ∃ child ∈ listActiveChildIdsGuardedBy scope guardian s, countActiveForChild scope child s ≤ 1 := by
  rw [fewGuarded,LastEnds]
  constructor
  · rintro ⟨g,mem,active,would,few⟩
    obtain ⟨rfl,own⟩ := (ends g).mp would
    exact ⟨g,mem,rfl,own,active,few⟩
  · rintro ⟨g,mem,rfl,own,active,few⟩
    exact ⟨g,mem,active,(ends g).mpr ⟨rfl,own⟩,few⟩

theorem removeMemberRefused {n : Nat} {now : Instant} {familyId : FamilyId} {memberId : FamilyMemberId} :
    LastGuardianReturned n s (.removeMember now familyId memberId) ↔
      Counts s (.removeMember now familyId memberId) ∧ LastEnds (.removeMember now familyId memberId) s := by
  have ends (g : Guardianship) : wouldEnd (.removeMember now familyId memberId) g ↔
      g.familyId = familyId ∧ g.guardianMemberId = memberId := by simp [wouldEnd]
  simp only [LastGuardianReturned,checksCoverage,true_and,lastEndsHeld ends,Counts,commands,start,removeMember,alone]
  cases found : findById familyId memberId s with
  | none => simp [fail,alone]
  | some member =>
    obtain ⟨-,rfl,-⟩ := findByIdSource found
    cases active : member.isActive with
    | false => simp [fail,alone,active]
    | true =>
      by_cases owner : member.role = .owner
      · simp [fail,alone,active,owner]
      · simp only [active,owner,Bool.not_true,Bool.false_eq_true,if_false,alone]
        rw [coverEachAlone (findEachAlone (fun gs => saveAlone))]
        simp [active,owner]

theorem changeMemberRoleRefused {n : Nat} {now : Instant} {familyId : FamilyId} {memberId : FamilyMemberId}
    {newRole : MemberRole} : LastGuardianReturned n s (.changeMemberRole now familyId memberId newRole) ↔
      Counts s (.changeMemberRole now familyId memberId newRole) ∧
        LastEnds (.changeMemberRole now familyId memberId newRole) s := by
  have ends (g : Guardianship) : wouldEnd (.changeMemberRole now familyId memberId newRole) g ↔
      g.familyId = familyId ∧ g.guardianMemberId = memberId := by simp [wouldEnd]
  simp only [LastGuardianReturned,checksCoverage,true_and,lastEndsHeld ends,Counts,commands,start,changeMemberRole,alone]
  cases found : findById familyId memberId s with
  | none => simp [fail,alone]
  | some member =>
    obtain ⟨-,rfl,-⟩ := findByIdSource found
    cases active : member.isActive with
    | false => simp [fail,alone,active]
    | true =>
      by_cases loses : isEligibleGuardian member.kind member.role && !isEligibleGuardian member.kind newRole
      · simp only [active,loses,Bool.not_true,Bool.false_eq_true,if_false,if_true,alone]
        rw [coverEachAlone (findEachAlone (fun gs => saveRoleChangeAlone))]
        simp only [Bool.and_eq_true,Bool.not_eq_true'] at loses
        simp [active,loses]
      · simp only [active,loses,Bool.not_true,Bool.false_eq_true,if_false]
        simp only [Bool.and_eq_true,Bool.not_eq_true',not_and] at loses
        simp only [saveRoleChangeAlone,false_iff,not_and]
        rintro ⟨_,⟨⟩,-,eligible,unfit⟩
        exact absurd unfit (loses eligible)

theorem endGuardianshipRefused {n : Nat} {now : Instant} {familyId : FamilyId} {child guardian : FamilyMemberId} :
    LastGuardianReturned n s (.endGuardianship now familyId child guardian) ↔
      LastEnds (.endGuardianship now familyId child guardian) s := by
  simp only [LastGuardianReturned,checksCoverage,true_and,commands,start,endGuardianship,alone]
  cases found : findActive familyId guardian child s with
  | none =>
    have absent := List.find?_eq_none.mp found
    simp only [fail,alone,Option.some.injEq,Reply.failed.injEq,reduceCtorEq,false_iff]
    rintro ⟨g,mem,active,would,-⟩
    simp only [wouldEnd,Bool.and_eq_true,decide_eq_true_eq] at would
    exact absent g mem (by simp [would,active])
  | some g =>
    obtain ⟨mem,own,of⟩ := findActiveSource found
    have source := List.find?_some found
    simp only [Bool.and_eq_true,decide_eq_true_eq] at source
    have few : LastEnds (.endGuardianship now familyId child guardian) s ↔ countActiveForChild familyId child s ≤ 1 := by
      constructor
      · rintro ⟨h,-,-,would,few⟩
        simp only [wouldEnd,Bool.and_eq_true,decide_eq_true_eq] at would
        obtain ⟨⟨rfl,-⟩,rfl⟩ := would
        exact few
      · intro few
        exact ⟨g,mem,source.2,by simp [wouldEnd,source],by rw [source.1.1.1,of]; exact few⟩
    rw [few]
    by_cases low : countActiveForChild familyId child s ≤ 1
    · simp only [alone,coverageRefused.mpr low]
      simp [fail,alone,low]
    · have ok : assertGuardianCoverage ((countActiveForChild familyId child s : Int) - 1) = .ok () := by
        unfold assertGuardianCoverage
        rw [if_neg (by omega)]
      simp only [alone,ok,low,iff_false]
      exact saveAlone

theorem refusedSource {n : Nat} {call : Call} :
    LastGuardianReturned n s call ↔ Counts s call ∧ LastEnds call s := by
  cases call with
  | removeMember => exact removeMemberRefused
  | changeMemberRole => exact changeMemberRoleRefused
  | endGuardianship => simpa [Counts] using endGuardianshipRefused
  | _ => simp [LastGuardianReturned,checksCoverage,Counts]

theorem sameGuardian {call : Call} {g h : Guardianship} (first : wouldEnd call g) (second : wouldEnd call h) :
    g.guardianMemberId = h.guardianMemberId := by
  cases call <;> simp only [wouldEnd,Bool.and_eq_true,decide_eq_true_eq,Bool.false_eq_true] at first second
  case changeMemberRole | removeMember => exact first.2.trans second.2.symm
  case endGuardianship => exact first.1.2.trans second.1.2.symm

theorem desertsSource {call : Call} {m : FamilyMember} : Deserts call s m ↔
    ∃ g ∈ s.guardianships.rows, g.familyId = m.familyId ∧ g.childMemberId = m.id ∧ g.isActive ∧ wouldEnd call g ∧
      countActiveForChild m.familyId m.id s ≤ 1 := by
  have listed (g : Guardianship) : g ∈ activeGuardianships s m ↔ g ∈ s.guardianships.rows ∧
      (g.familyId = m.familyId ∧ g.childMemberId = m.id) ∧ g.isActive := by
    simp [activeGuardianships,List.mem_filter]
  constructor
  · rintro ⟨some,all⟩
    obtain ⟨g,present⟩ := List.exists_mem_of_ne_nil _ some
    have each := List.all_eq_true.mp all
    obtain ⟨mem,⟨home,of⟩,active⟩ := (listed g).mp present
    refine ⟨g,mem,home,of,active,each g present,?_⟩
    by_contra many
    obtain ⟨a,left,b,right,pa,pb,other⟩ := Table.filterTwo (Nat.lt_of_not_le many)
    simp only [Bool.and_eq_true,decide_eq_true_eq] at pa pb
    have guardians := sameGuardian (each a ((listed a).mpr ⟨left,pa⟩)) (each b ((listed b).mpr ⟨right,pb⟩))
    exact other (s.legal.onePair a left b right pa.2 pb.2 guardians (pa.1.2.trans pb.1.2.symm))
  · rintro ⟨g,mem,home,of,active,would,few⟩
    have present := (listed g).mpr ⟨mem,⟨home,of⟩,active⟩
    refine ⟨List.ne_nil_of_mem present,List.all_eq_true.mpr (fun h other => ?_)⟩
    have alike : h = g := by
      obtain ⟨x,only⟩ := List.length_eq_one_iff.mp (Nat.le_antisymm few (List.length_pos_of_mem present))
      change activeGuardianships s m = [x] at only
      rw [only,List.mem_singleton] at present other
      rw [present,other]
    rw [alike]
    exact would

theorem desertsLast {call : Call} (watched : Watched False s) :
    LastEnds call s ↔ DesertsActive call s ∨ DesertsRemoved call s := by
  constructor
  · rintro ⟨g,mem,active,would,few⟩
    obtain ⟨m,there,id,home,kind,-⟩ := watched g mem active
    have deserts : Deserts call s m :=
      desertsSource.mpr ⟨g,mem,home.symm,id.symm,active,would,by rw [home,id]; exact few⟩
    cases stands : m.isActive with
    | true => exact .inl ⟨m,there,by simp [isActiveChild,kind,stands],deserts⟩
    | false => exact .inr ⟨m,there,kind,stands,deserts⟩
  · rintro (⟨m,-,-,deserts⟩ | ⟨m,-,-,-,deserts⟩) <;>
      obtain ⟨g,mem,home,of,active,would,few⟩ := desertsSource.mp deserts <;>
      exact ⟨g,mem,active,would,by rw [home,of]; exact few⟩

theorem desertsNoRemoved {call : Call} (watched : Watched True s) : ¬ DesertsRemoved call s := by
  rintro ⟨m,there,-,gone,deserts⟩
  obtain ⟨g,mem,-,of,active,-⟩ := desertsSource.mp deserts
  obtain ⟨c,present,id,-,-,stands⟩ := watched g mem active
  have own : c = m := Table.equalOfKey present there (id.trans of)
  rw [← own,stands trivial] at gone
  cases gone

end

theorem everyWithin (n : Nat) (s : Store) (calls : List Call) :
    SerialWithin commands (fun call s => False → KeepsChildren call s) n s calls := by
  induction calls generalizing n s with
  | nil => trivial
  | cons call rest ih => exact ⟨False.elim,ih _ _⟩

/-- In each state that a series of commands reaches, a refusal for the last guardian is
for the sake of an active child, unless the call counts and the removed children that it
would desert are the only ones; and always, where the series removes no child. -/
theorem lastGuardianActive (calls : List Call) (call : Call) :
    let s := (serial commands 0 .empty calls).2
    ((LastGuardianReturned calls.length s call → DesertsActive call s) ↔
      ¬ (Counts s call ∧ DesertsRemoved call s ∧ ¬ DesertsActive call s)) ∧
    (SerialWithin commands KeepsChildren 0 .empty calls →
      LastGuardianReturned calls.length s call → DesertsActive call s) := by
  intro s
  have watched : Watched False s := serialWatched (everyWithin 0 .empty calls)
  rw [refusedSource,desertsLast watched]
  constructor
  · tauto
  · intro stay refused
    have kept : Watched True s := @serialWatched True _ (by simpa using stay)
    exact refused.2.resolve_right (desertsNoRemoved kept)

def cleoAdded : List Call := couple ++ [.addMember 0 2 .child "Cleo" none]

def removeBen : Call := .removeMember 3 0 2

theorem benGuards : LastGuardianReturned cleoAdded.length (serial commands 0 .empty cleoAdded).2 removeBen ∧
    DesertsActive removeBen (serial commands 0 .empty cleoAdded).2 := by
  have refused : LastGuardianReturned cleoAdded.length (serial commands 0 .empty cleoAdded).2 removeBen := by
    decide +kernel
  exact ⟨refused,(lastGuardianActive cleoAdded removeBen).2 (by decide +kernel) refused⟩

def cleoGone : List Call := cleoAdded ++ [.removeMember 2 0 3]

theorem benUnremovable : ¬ ∀ calls call, LastGuardianReturned calls.length (serial commands 0 .empty calls).2 call →
    DesertsActive call (serial commands 0 .empty calls).2 := by
  intro rightful
  exact absurd (rightful cleoGone removeBen (by decide +kernel)) (by decide +kernel)

end FamilyPlatform.Membership
