import FamilyPlatform.Api.FamilyLinks
import FamilyPlatform.Membership.Outside

/-! What an outsider can tell of a family. Whatever users who have no standing in it ask, of it
or of their own families, in whatever order the steps are taken: each answer could have been
given had the family been another one, or none. -/
namespace FamilyPlatform.FamilyApi
open Interleaving (Steps Move Reaches Writes Turned turnedRead Paired Matched similarLift similarWrites
  applyAll applyAllRel begins begun run unwinds matchedReplies writesMono)
open FamilyPlatform.Membership

/- What the outsiders have to do with the family: its rows are older than all that they ask
for, none of them stands in it, and none of its tokens is one that they use. -/
structure Hidden (taken : Nat) (out : UserId → Prop) (used : String → Prop) (p : Part) : Prop where
  members : ∀ m ∈ p.members, m.id < taken
  guardianships : ∀ g ∈ p.guardianships, g.id < taken
  invitations : ∀ i ∈ p.invitations, i.id < taken
  strangers : ∀ m ∈ p.members, m.isActive → ∀ userId, m.userId = some userId → ¬ out userId
  tokens : ∀ i ∈ p.invitations, ¬ used i.tokenHash

def Outsider (familyId : FamilyId) (out : UserId → Prop) (used : String → Prop) : Request → Prop
  | .createFamily _ _ _ => True
  | .listFamilies userId => out userId
  | .acceptInvitation _ tokenHash _ _ => used tokenHash
  | .scoped userId scope route => (scope = familyId → out userId) ∧ ∀ tokenHash, route.brings tokenHash → used tokenHash

section
variable {taken number : Nat} {out : UserId → Prop} {used : String → Prop} {familyId : FamilyId} {p : Part}

theorem madeOutward {kept : Store → Prop} (known : ∀ s, kept s → Foreign familyId p s.toTables) {scope : FamilyId}
    (apart : scope ≠ familyId) (hidden : Hidden taken out used p) {own : FamilyMemberId → Prop} (owns : ∀ id, own id → Away p id)
    {joins : UserId → Prop} {brings : String → Prop} (tokens : ∀ tokenHash, brings tokenHash → used tokenHash) {v : Statement}
    (made : Made kept scope (taken + number) own joins brings v) : Outward familyId p v := by
  have fresh {id : Nat} (old : id < taken) : id ≠ taken + number := Nat.ne_of_lt (Nat.lt_add_right number old)
  have away {id : FamilyMemberId} (is : Known kept scope own id) : Away p id := by
    rcases is with mine | ⟨s,held,r,there,rfl,rfl⟩
    · exact owns id mine
    · exact (known s held).members r there apart
  cases made with
  | founded id number => exact apart
  | family held found id => exact apart
  | enrolled id family user => exact ⟨apart,fun m mem same => fresh (hidden.members m mem) (same.trans id)⟩
  | changed held there family active id same user => exact ⟨apart,id.symm ▸ (known _ held).members _ there (family ▸ apart)⟩
  | established id family guardian child =>
    exact ⟨apart,fun x mem same => fresh (hidden.guardianships x mem) (same.trans id),away guardian,away child⟩
  | finished held there family =>
    have row := (known _ held).guardianships _ there (family ▸ apart)
    exact ⟨apart,row⟩
  | told family => exact fun own => apart (family.symm.trans own)
  | invited id family token by_ nobody =>
    refine ⟨apart,fun x mem => ⟨fun same => fresh (hidden.invitations x mem) (same.trans id),fun same => ?_⟩,away by_,
      fun id is => by rw [nobody] at is; cases is⟩
    exact hidden.tokens x mem (same ▸ tokens _ token)
  | @answered s r i held there family same by_ who closed =>
    obtain ⟨keys,inviter,accepter⟩ := (known _ held).invitations r there (family ▸ apart)
    refine ⟨apart,fun x mem => ⟨same.id ▸ (keys x mem).1,same.token ▸ (keys x mem).2⟩,by_ ▸ inviter,fun id is => ?_⟩
    rcases who id is with before | mine
    · exact accepter id before
    · exact owns id mine

def RecordOutward (familyId : FamilyId) (p : Part) : RecordStatement → Prop
  | .save v => Outward familyId p v
  | .audit _ => True

theorem batchOutward {kept : Store → Prop} (known : ∀ s, kept s → Foreign familyId p s.toTables) {scope : FamilyId}
    (apart : scope ≠ familyId) (hidden : Hidden taken out used p) {joins : UserId → Prop} {brings : String → Prop}
    (tokens : ∀ tokenHash, brings tokenHash → used tokenHash) {batch : List RecordStatement}
    (made : BatchMade kept scope (taken + number) joins brings batch) : ∀ w ∈ batch, RecordOutward familyId p w := by
  have owns (id : FamilyMemberId) (enrols : Enrols scope batch id) : Away p id := by
    obtain ⟨m,mem,rfl⟩ := enrols
    cases made _ mem with
    | enrolled id family user =>
      intro x listed same
      exact Nat.ne_of_lt (Nat.lt_add_right number (hidden.members x listed)) (same.trans id)
    | changed held there family active id same user => exact id.symm ▸ (known _ held).members _ there (family ▸ apart)
  intro w mem
  cases w with
  | audit entry => trivial
  | save v => exact madeOutward known apart hidden owns tokens (made _ mem)

end

section
variable (familyId : FamilyId) (p q : Part) (log log' : List AuditEntry)

structure Besides (r t : Records) : Prop where
  stores : Twins familyId p q r.store t.store
  audit : ∃ entries, r.audit = log ++ entries ∧ t.audit = log' ++ entries

def Shared (batch batch' : List RecordStatement) : Prop :=
  batch = batch' ∧ ∀ w ∈ batch, RecordOutward familyId p w ∧ RecordOutward familyId q w

variable {familyId p q log log'}

theorem besidesApply (whole : Whole p ∧ Whole q) {w : RecordStatement}
    (out : RecordOutward familyId p w ∧ RecordOutward familyId q w)
    {r t : Records} (besides : Besides familyId p q log log' r t) :
    Option.Rel (Besides familyId p q log log') (applyRecord w r) (applyRecord w t) := by
  obtain ⟨entries,one,two⟩ := besides.audit
  cases w with
  | audit entry => exact .some ⟨besides.stores,entries ++ [entry],by simp [one],by simp [two]⟩
  | save v =>
    have rel := twinsApply whole out besides.stores
    simp only [applyRecord,bind]
    generalize apply v r.store = x at rel
    generalize apply v t.store = y at rel
    cases rel with
    | none => exact .none
    | some next => exact .some ⟨next,entries,one,two⟩

theorem besidesKeeps (whole : Whole p ∧ Whole q) (batch batch' : List RecordStatement) (r t : Records)
    (shared : Shared familyId p q batch batch') (besides : Besides familyId p q log log' r t) :
    Option.Rel (Besides familyId p q log log') (applyAll applyRecord batch r) (applyAll applyRecord batch' t) := by
  obtain ⟨rfl,out⟩ := shared
  exact applyAllRel (fun w mem _ _ same => besidesApply whole (out w mem) same) besides

theorem inRecordsMirrors {Outcome : Type} {l : Steps Store Statement Outcome} (mirrors : Mirrors (Twins familyId p q) l) :
    Mirrors (Besides familyId p q log log') (inRecords l) :=
  similarLift (fun _ _ is => is.stores) (fun _ _ same => congrArg _ same) mirrors

section
variable {scope : FamilyId} (apart : scope ≠ familyId)
include apart

theorem handlerMirrors (route : Route) (userId : UserId) (fresh : Nat) (context : FamilyContext) :
    Mirrors (Besides familyId p q log log') (handler route userId scope fresh context) := by
  have part (s t : Store) (is : Twins familyId p q s t) := twinsPart is apart
  have partR (r t : Records) (is : Besides familyId p q log log' r t) := twinsPart is.stores apart
  have command {script : Script} (mirrors : Mirrors (Twins familyId p q) script) : Mirrors (Besides familyId p q log log')
      ((inRecords script).bind fun reply => .returned (route.answer reply)) :=
    mirrorsBind (inRecordsMirrors mirrors)
  cases route with
  | getFamily =>
    exact mirrorsBind (mirrorsRead (fun r t is => by rw [samePartCurrent (partR r t is)]) (fun _ => rfl))
  | updateFamily name =>
    refine mirrorsBind (mirrorsRead (fun r t is => by rw [samePartCurrent (partR r t is)]) (fun r => ?_))
    split
    · rfl
    · split
      · exact mirrorsCommit
      · split
        · rfl
        · exact mirrorsCommit
  | listMembers =>
    refine mirrorsBind (mirrorsRead (fun r t is => by rw [samePartActive (partR r t is)]) (fun r => ?_))
    exact mirrorsRead (fun r t is => by rw [samePartGuarded (partR r t is)]) (fun _ => rfl)
  | readMember memberId =>
    refine mirrorsBind (mirrorsRead (fun r t is => by rw [samePartMember (partR r t is)]) (fun r => ?_))
    split
    · rfl
    · split
      · rfl
      · split
        · exact mirrorsRead (fun r t is => by rw [samePartGuardianship (partR r t is)]) (fun _ => mirrorsCommit)
        · rfl
  | addMember kind displayName dateOfBirth => exact command (addMemberMirrors part)
  | grantGuardianship child guardian => exact command (grantGuardianshipMirrors part)
  | endGuardianship now child guardian => exact command (endGuardianshipMirrors part)
  | createInvitation now email role existing tokenHash => exact command (createInvitationMirrors part)
  | listInvitations =>
    exact mirrorsBind (mirrorsRead (fun r t is => by rw [samePartListed part is.stores]) (fun _ => rfl))
  | revokeInvitation now invitationId => exact command (revokeInvitationMirrors part)
  | changeMemberRole now memberId newRole => exact command (changeMemberRoleMirrors part)
  | removeMember now memberId => exact command (removeMemberMirrors part)
  | transferOwnership toMemberId => exact command (transferOwnershipMirrors part)
  | requestFamilyDeletion now => exact command (requestFamilyDeletionMirrors part)

theorem scopedMirrors {taken number : Nat} {userId : UserId} {route : Route} :
    Mirrors (Besides familyId p q log log') ((familyApi taken).start (.scoped userId scope route) number) := by
  have partR (r t : Records) (is : Besides familyId p q log log' r t) := twinsPart is.stores apart
  simp only [familyApi,respond,familyMembershipGuardReads]
  refine mirrorsRead (fun r t is => by rw [samePartCurrent (partR r t is)]) (fun r => ?_)
  split
  · refine mirrorsRead (fun r t is => by rw [samePartStanding (partR r t is)]) (fun r => ?_)
    cases findStandingByUserId scope userId r.store with
    | none => exact mirrorsCommit
    | some m =>
      simp only [Option.elim_some,capabilityGuard]
      split
      · exact handlerMirrors apart route userId (taken + number) _
      · exact mirrorsCommit
  · exact mirrorsCommit

end

theorem createFamilyRequestMirrors {taken number : Nat} {ownerUserId : UserId} {ownerDisplayName name : String} :
    Mirrors (Besides familyId p q log log') ((familyApi taken).start (.createFamily ownerUserId ownerDisplayName name) number) := by
  simp only [familyApi,respond]
  exact mirrorsBind (inRecordsMirrors createFamilyMirrors)

variable {taken : Nat} {out : UserId → Prop} {used : String → Prop}

theorem scopedTurned {number : Nat} {userId : UserId} {route : Route} (hidden : Hidden taken out used p) (stranger : out userId) :
    Turned (fun r : Records => Beside familyId p r.store) [.audit (accessDenied userId familyId (taken + number))]
      (notFound .family) ((familyApi taken).start (.scoped userId familyId route) number) := by
  simp only [familyApi,respond,familyMembershipGuardReads]
  refine turnedRead fun r _ => ?_
  split
  · refine turnedRead fun u beside => ?_
    have none_ : findStandingByUserId familyId userId u.store = none := by
      refine List.find?_eq_none.mpr (fun m there standing => ?_)
      simp only [Bool.and_eq_true,decide_eq_true_eq] at standing
      exact hidden.strangers m (beside.part ▸ memPartMembers.mpr ⟨there,standing.1.1⟩) standing.2 userId standing.1.2 stranger
    rw [none_]
    exact ⟨rfl,fun _ _ => rfl⟩
  · exact ⟨rfl,fun _ _ => rfl⟩

def Unused (familyId : FamilyId) (used : String → Prop) (p q : Part) (s : Store) : Prop :=
  (Foreign familyId p s.toTables ∧ Foreign familyId q s.toTables) ∧
    ∀ i ∈ s.invitations.rows, i.familyId = familyId → ¬ used i.tokenHash

abbrev AnsweredAlike (familyId : FamilyId) (p q : Part) (log log' : List AuditEntry) (l : Recorded Answer) : Prop :=
  Paired (Besides familyId p q log log') (Shared familyId p q) (fun r => Beside familyId p r.store)
    (fun r => Beside familyId q r.store) l l

abbrev OutwardBoth (familyId : FamilyId) (p q : Part) (batch : List RecordStatement) : Prop :=
  ∀ w ∈ batch, RecordOutward familyId p w ∧ RecordOutward familyId q w

section
variable (hidden : Hidden taken out used p) (hidden' : Hidden taken out used q)
include hidden

theorem besidesUnused {r t : Records} (is : Besides familyId p q log log' r t) : Unused familyId used p q r.store :=
  ⟨⟨is.stores.left.foreign,twinsForeign is.stores⟩,
    fun i there own => hidden.tokens i (is.stores.left.part ▸ memPartInvitations.mpr ⟨there,own⟩)⟩

theorem writesAlike {l : Recorded Answer} {batches : List RecordStatement → Prop}
    (mirrors : Mirrors (Besides familyId p q log log') l)
    (writes : Writes (fun r : Records => Unused familyId used p q r.store) batches l)
    (bound : ∀ batch, batches batch → OutwardBoth familyId p q batch) : AnsweredAlike familyId p q log log' l :=
  .inl (similarWrites (fun _ _ is => besidesUnused hidden is) mirrors (writesMono writes bound))

include hidden'

theorem madeOutwardBoth {number : Nat} {scope : FamilyId} {joins : UserId → Prop} {brings : String → Prop}
    (apart : scope ≠ familyId) (tokens : ∀ tokenHash, brings tokenHash → used tokenHash) {batch : List RecordStatement}
    (made : BatchMade (Unused familyId used p q) scope (taken + number) joins brings batch) :
    OutwardBoth familyId p q batch := fun w mem =>
  ⟨batchOutward (fun _ held => held.1.1) apart hidden tokens made w mem,
    batchOutward (fun _ held => held.1.2) apart hidden' tokens made w mem⟩

theorem createFamilyAlike {number : Nat} {ownerUserId : UserId} {ownerDisplayName name : String} (old : familyId < taken) :
    AnsweredAlike familyId p q log log'
      ((familyApi taken).start (.createFamily ownerUserId ownerDisplayName name) number) := by
  have mirrors := @createFamilyRequestMirrors familyId p q log log' taken number ownerUserId ownerDisplayName name
  have made := @createFamilyRequestMade (Unused familyId used p q) taken number ownerUserId ownerDisplayName name
  generalize (familyApi taken).start (.createFamily ownerUserId ownerDisplayName name) number = script at mirrors made ⊢
  refine writesAlike hidden mirrors made (fun batch made => madeOutwardBoth hidden hidden' ?_ (fun _ none => none.elim) made)
  exact fun own => Nat.not_lt.mpr (Nat.le_add_right taken number) (own ▸ old)

theorem listFamiliesAlike {number : Nat} {userId : UserId} (stranger : out userId) :
    AnsweredAlike familyId p q log log' ((familyApi taken).start (.listFamilies userId) number) := by
  refine writesAlike hidden ?_ (requestMade (.listFamilies userId)) (fun batch none => none.elim)
  have strangers {p : Part} (hidden : Hidden taken out used p) (m : FamilyMember) (mem : m ∈ p.members) (active : m.isActive) :
      m.userId ≠ some userId := fun is => hidden.strangers m mem active userId is stranger
  refine mirrorsBind (mirrorsRead (fun r t is => ?_) (fun _ => rfl))
  rw [twinsMemberships is.stores (strangers hidden) (strangers hidden')]

theorem acceptInvitationAlike {number : Nat} {now : Instant} {tokenHash : String} {userId : UserId}
    {email : EmailAddress} (own : used tokenHash) :
    AnsweredAlike familyId p q log log'
      ((familyApi taken).start (.acceptInvitation now tokenHash userId email) number) := by
  have unknown {p : Part} (hidden : Hidden taken out used p) (i : Invitation) (mem : i ∈ p.invitations) :
      i.tokenHash ≠ tokenHash := fun is => hidden.tokens i mem (is ▸ own)
  refine writesAlike hidden ?_ (requestMade (.acceptInvitation now tokenHash userId email)) (fun batch made => ?_)
  · simp only [familyApi,respond]
    exact mirrorsBind (inRecordsMirrors (acceptInvitationMirrors fun s t is =>
      twinsToken is (unknown hidden) (unknown hidden')))
  · obtain ⟨s,i,held,found,-,-,made⟩ := made
    have token : i.tokenHash = tokenHash := by simpa using List.find?_some found
    exact madeOutwardBoth hidden hidden' (fun family => held.2 i (List.mem_of_find?_eq_some found) family (token ▸ own))
      (fun _ none => none.elim) made

theorem requestPaired (old : familyId < taken) {request : Request} (outsider : Outsider familyId out used request)
    (number : Nat) : AnsweredAlike familyId p q log log' ((familyApi taken).start request number) := by
  cases request with
  | createFamily ownerUserId ownerDisplayName name => exact createFamilyAlike hidden hidden' old
  | listFamilies userId => exact listFamiliesAlike hidden hidden' outsider
  | acceptInvitation now tokenHash userId email => exact acceptInvitationAlike hidden hidden' outsider
  | «scoped» userId scope route =>
    by_cases own : scope = familyId
    · subst own
      exact .inr ⟨_,_,⟨rfl,fun w mem => by rw [List.mem_singleton.mp mem]; exact ⟨trivial,trivial⟩⟩,
        scopedTurned hidden (outsider.1 rfl),scopedTurned hidden' (outsider.1 rfl)⟩
    · exact writesAlike hidden (scopedMirrors own) (requestMade (.scoped userId scope route))
        (fun batch made => madeOutwardBoth hidden hidden' own outsider.2 made)

end

end

/-- Two stores that differ in nothing but one family, which may be there or not: whatever
outsiders ask, each run from the one store is answered word for word by a run from the other, and
the family stays as it is in both. -/
theorem outsidersBlind {taken : Nat} {familyId : FamilyId} {out : UserId → Prop} {used : String → Prop} {s t : Records}
    (same : withoutFamily familyId s.store.toTables = withoutFamily familyId t.store.toTables)
    (linked : Linked (MemberOf s.store) s.store) (linked' : Linked (MemberOf t.store) t.store) (old : familyId < taken)
    (hidden : Hidden taken out used (partOf familyId s.store.toTables))
    (hidden' : Hidden taken out used (partOf familyId t.store.toTables)) {moves : List (Move Request)}
    (asked : ∀ request ∈ begun moves, Outsider familyId out used request)
    {c : Interleaving.Config Records RecordStatement Answer} (ran : run (familyApi taken) (begins s) moves = some c) :
    ∃ (others : List (Move Request)) (d : Interleaving.Config Records RecordStatement Answer),
      begun others = begun moves ∧ run (familyApi taken) (begins t) others = some d ∧ d.replies = c.replies ∧
      (∃ entries, c.store.audit = s.audit ++ entries ∧ d.store.audit = t.audit ++ entries) ∧
      withoutFamily familyId c.store.store.toTables = withoutFamily familyId d.store.store.toTables ∧
      partOf familyId c.store.store.toTables = partOf familyId s.store.toTables ∧
      partOf familyId d.store.store.toTables = partOf familyId t.store.toTables := by
  have besides : Besides familyId (partOf familyId s.store.toTables) (partOf familyId t.store.toTables) s.audit t.audit s t :=
    ⟨⟨same,⟨rfl,linkedForeign linked⟩,⟨rfl,linkedForeign linked'⟩⟩,[],by simp,by simp⟩
  have first : Matched (Besides familyId (partOf familyId s.store.toTables) (partOf familyId t.store.toTables) s.audit t.audit)
      (Shared familyId (partOf familyId s.store.toTables) (partOf familyId t.store.toTables))
      (fun r => Beside familyId (partOf familyId s.store.toTables) r.store)
      (fun r => Beside familyId (partOf familyId t.store.toTables) r.store)
      (begins s : Interleaving.Config Records RecordStatement Answer) (begins t) :=
    ⟨besides,rfl,fun i l l' none => by simp [begins] at none⟩
  obtain ⟨others,d,begun_,reached,matched⟩ := unwinds
    (fun _ _ is => ⟨is.stores.left,is.stores.right⟩) (besidesKeeps ⟨linkedWhole linked,linkedWhole linked'⟩)
    (fun request outsider number => requestPaired hidden hidden' old outsider number) asked first ran
  exact ⟨others,d,begun_,reached,(matchedReplies matched).symm,matched.stores.audit,matched.stores.stores.same,
    matched.stores.stores.left.part,matched.stores.stores.right.part⟩

def withAnn : Records := ⟨(Interleaving.serial commands 0 .empty
  [.createFamily 1 "Ann" "Home",.createFamily 5 "Eve" "Den",.addMember 0 0 .child "Cid" none]).2,[]⟩

def withoutAnn : Records := ⟨(Interleaving.serial commands 1 .empty [.createFamily 5 "Eve" "Den"]).2,[]⟩

def eveAsks : List (Move Request) := [.begin (.scoped 5 0 .listMembers),.begin (.scoped 5 1 (.addMember .adult "Dan" none)),
  .begin (.listFamilies 5),.advance 1,.advance 0,.advance 1,.advance 0,.advance 1,.advance 2,.advance 1,.advance 0]

theorem eveBlind : Reaches (familyApi 3) (begins withAnn) eveAsks (fun c => ∃ (others : List (Move Request))
    (d : Interleaving.Config Records RecordStatement Answer), begun others = begun eveAsks ∧
      run (familyApi 3) (begins withoutAnn) others = some d ∧ d.replies = c.replies) := by
  obtain ⟨c,ran⟩ := Option.isSome_iff_exists.mp
    (by decide +kernel : (run (familyApi 3) (begins withAnn) eveAsks).isSome)
  have linked : Linked (MemberOf withAnn.store) withAnn.store := by
    refine ⟨?_,?_⟩ <;> unfold MemberOf <;> decide +kernel
  have linked' : Linked (MemberOf withoutAnn.store) withoutAnn.store := by
    refine ⟨?_,?_⟩ <;> unfold MemberOf <;> decide +kernel
  have hidden : Hidden 3 (· = 5) (fun _ => False) (partOf 0 withAnn.store.toTables) := by
    refine ⟨by decide +kernel,by decide +kernel,by decide +kernel,?_,fun _ _ none => none⟩
    have others : ∀ m ∈ (partOf 0 withAnn.store.toTables).members, m.userId ≠ some 5 := by decide +kernel
    exact fun m mem _ userId is same => others m mem (same ▸ is)
  have hidden' : Hidden 3 (· = 5) (fun _ => False) (partOf 0 withoutAnn.store.toTables) := by
    refine ⟨by decide +kernel,by decide +kernel,by decide +kernel,?_,fun _ _ none => none⟩
    have others : ∀ m ∈ (partOf 0 withoutAnn.store.toTables).members, m.userId ≠ some 5 := by decide +kernel
    exact fun m mem _ userId is same => others m mem (same ▸ is)
  have asked : ∀ request ∈ begun eveAsks, Outsider 0 (· = 5) (fun _ => False) request := by
    simp [eveAsks,begun,Outsider,Route.brings]
  obtain ⟨others,d,begun_,reached,replies,-⟩ :=
    outsidersBlind (by decide +kernel) linked linked' (by decide) hidden hidden' asked ran
  exact ⟨c,ran,others,d,begun_,reached,replies⟩

end FamilyPlatform.FamilyApi
