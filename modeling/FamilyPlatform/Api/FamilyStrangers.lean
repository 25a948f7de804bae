import FamilyPlatform.Api.FamilyAccess

/-! What removal means. The row of a removed member is final, and a user who has no row in a
family and no invitation to it finds no way in, whatever its members do meanwhile. -/
namespace FamilyPlatform.FamilyApi
open Interleaving (Move Reaches Gates Gated Follows applyAll applyAllKeeps begins begun begunAppend move run runFollowed
  runFollowedBy withinAny gatedRead gatedGate gatedNone clearedGate answeredCleared)
open FamilyPlatform.Membership

theorem nothingBegun {kept : Records → Prop} {batches : Nat → Request → List RecordStatement → Prop} (s : Records) :
    Follows kept batches [] (begins s : Interleaving.Config Records RecordStatement Answer) :=
  ⟨rfl,fun i call l named => by simp at named⟩

theorem tombstoneSpared {taken i : Nat} {m : FamilyMember} (removed : m.isActive = false) (old : m.id < taken)
    {kept : Store → Prop} (known : ∀ s, kept s → m ∈ s.members.rows) {scope : FamilyId}
    {own : FamilyMemberId → Prop} {joins : UserId → Prop} {brings : String → Prop} {v : Statement}
    (made : Made kept scope (taken + i) own joins brings v) {s t : Store}
    (there : m ∈ s.members.rows) (applied : apply v s = some t) : m ∈ t.members.rows := by
  cases made with
  | founded id own => rwa [(familySaved applied).2.1]
  | family known found id => rwa [(familySaved applied).2.1]
  | enrolled id family user =>
    refine ((memberSaved applied).1 m).mpr (.inl ⟨there,?_⟩)
    exact fun same => absurd (same.trans id) (Nat.ne_of_lt (Nat.lt_add_right i old))
  | changed read row family active id own user =>
    refine ((memberSaved applied).1 m).mpr (.inl ⟨there,fun same => ?_⟩)
    have is := Table.equalOfKey (known _ read) row (same.trans id)
    rw [is,active] at removed
    cases removed
  | established id family guardian child => rwa [(guardianshipSaved applied).2.2.1]
  | finished read row family => rwa [(guardianshipSaved applied).2.2.1]
  | invited id family token by_ nobody => rwa [(invitationSaved applied).2.1]
  | answered read row family same by_ who closed => rwa [(invitationSaved applied).2.1]
  | told family => rwa [(appended applied).2.1]

/-- The row of a removed member never changes again. -/
theorem tombstoneFinal {taken : Nat} {s : Records} {m : FamilyMember} {moves : List (Move Request)}
    {c : Interleaving.Config Records RecordStatement Answer} (there : m ∈ s.store.members.rows)
    (removed : m.isActive = false) (old : m.id < taken) (ran : run (familyApi taken) (begins s) moves = some c) :
    m ∈ c.store.store.members.rows := by
  let kept (s : Store) : Prop := m ∈ s.members.rows
  refine (runFollowed (fun _ r => kept r.store) (fun i call => @requestMade kept taken i call) id (fun _ is => is) ?_
    (nothingBegun s) there (withinAny _ moves) ran).2
  intro calls r t i call batch named is made _ applied
  obtain ⟨scope,joins,brings,made⟩ := requestBound made
  have each (w : RecordStatement) (mem : w ∈ batch) (x y : Records) (is : kept x.store) (wrote : applyRecord w x = some y) :
      kept y.store := by
    rcases recordSource wrote with same | ⟨v,rfl,saved⟩
    · rwa [same]
    · exact tombstoneSpared removed old (fun s is => is) (made _ mem) is saved
  exact applyAllKeeps each is applied

def benLeft : Records := ⟨(Interleaving.serial commands 0 .empty
  [.createFamily 1 "Ann" "Home",.createInvitation 0 0 0 ⟨"ben@example.org"⟩ .adult none "token",
    .acceptInvitation 1 "token" 2 ⟨"ben@example.org"⟩,.removeMember 2 0 2]).2,[]⟩

def benAsks : List (Move Request) := [.begin (.scoped 2 0 .listMembers),.begin (.scoped 1 0 (.changeMemberRole 3 2 .viewer)),
  .advance 0,.advance 1,.advance 1,.advance 0,.advance 1,.advance 0]

theorem benStaysRemoved : Reaches (familyApi 4) (begins benLeft) benAsks (fun c =>
    (⟨2,0,.adult,.adult,none,none,none,some 2⟩ : FamilyMember) ∈ c.store.store.members.rows) := by
  obtain ⟨c,ran⟩ := Option.isSome_iff_exists.mp
    (by decide +kernel : (run (familyApi 4) (begins benLeft) benAsks).isSome)
  exact ⟨c,ran,tombstoneFinal (by decide +kernel) rfl (by decide) ran⟩

structure Stranger (familyId : FamilyId) (userId : UserId) (holds : String → Prop) (s : Store) : Prop where
  unlisted : ∀ m ∈ s.members.rows, m.familyId = familyId → m.userId ≠ some userId
  uninvited : ∀ i ∈ s.invitations.rows, i.familyId = familyId → ¬ holds i.tokenHash

def KeepsOut (familyId : FamilyId) (userId : UserId) (holds : String → Prop) : Request → Prop
  | .acceptInvitation _ tokenHash callerUserId _ => callerUserId = userId → holds tokenHash
  | .scoped _ scope (.createInvitation _ _ _ _ tokenHash) => scope = familyId → ¬ holds tokenHash
  | _ => True

section
variable {familyId : FamilyId} {userId : UserId} {holds : String → Prop}

theorem strangerSpared {scope : FamilyId} {fresh : Nat} {own : FamilyMemberId → Prop} {joins : UserId → Prop}
    {brings : String → Prop} {v : Statement}
    (made : Made (Stranger familyId userId holds) scope fresh own joins brings v)
    (joined : scope = familyId → ¬ joins userId) (brought : scope = familyId → ∀ token, brings token → ¬ holds token)
    {s t : Store} (stranger : Stranger familyId userId holds s) (applied : apply v s = some t) :
    Stranger familyId userId holds t := by
  have unchanged (members : t.members = s.members) (invitations : t.invitations = s.invitations) :
      Stranger familyId userId holds t := ⟨members ▸ stranger.unlisted,invitations ▸ stranger.uninvited⟩
  cases made with
  | founded id own => exact unchanged (familySaved applied).2.1 (familySaved applied).2.2.2
  | family known found id => exact unchanged (familySaved applied).2.1 (familySaved applied).2.2.2
  | enrolled id family user =>
    obtain ⟨rows,-,-,-,-,invitations⟩ := memberSaved applied
    refine ⟨fun x mem own => ?_,invitations ▸ stranger.uninvited⟩
    rcases (rows x).mp mem with ⟨old,-⟩ | rfl
    · exact stranger.unlisted x old own
    · exact fun is => joined (family.symm.trans own) (user userId is)
  | changed known there family active id own user =>
    obtain ⟨rows,-,-,-,-,invitations⟩ := memberSaved applied
    refine ⟨fun x mem is => ?_,invitations ▸ stranger.uninvited⟩
    rcases (rows x).mp mem with ⟨old,-⟩ | rfl
    · exact stranger.unlisted x old is
    · exact fun named => known.unlisted _ there (family.trans (own.symm.trans is)) (user userId named)
  | established id family guardian child =>
    exact unchanged (guardianshipSaved applied).2.2.1 (guardianshipSaved applied).2.2.2
  | finished known there family => exact unchanged (guardianshipSaved applied).2.2.1 (guardianshipSaved applied).2.2.2
  | invited id family token by_ nobody =>
    refine ⟨(invitationSaved applied).2.1 ▸ stranger.unlisted,fun x mem own => ?_⟩
    rcases invitationRows applied x mem with ⟨old,-⟩ | rfl
    · exact stranger.uninvited x old own
    · exact brought (family.symm.trans own) _ token
  | answered known there family same by_ who closed =>
    refine ⟨(invitationSaved applied).2.1 ▸ stranger.unlisted,fun x mem own => ?_⟩
    rcases invitationRows applied x mem with ⟨old,-⟩ | rfl
    · exact stranger.uninvited x old own
    · rw [same.token]
      exact known.uninvited _ there (same.family.symm.trans own)
  | told family => exact unchanged (appended applied).2.1 (appendedInvitations applied)

theorem strangerKept {taken i : Nat} {request : Request} {batch : List RecordStatement} {r t : Records}
    (old : familyId < taken) (out : KeepsOut familyId userId holds request)
    (made : RequestMade (Stranger familyId userId holds) taken i request batch)
    (stranger : Stranger familyId userId holds r.store) (applied : applyAll applyRecord batch r = some t) :
    Stranger familyId userId holds t.store := by
  have each {scope : FamilyId} {joins : UserId → Prop} {brings : String → Prop}
      (made : BatchMade (Stranger familyId userId holds) scope (taken + i) joins brings batch)
      (joined : scope = familyId → ¬ joins userId) (brought : scope = familyId → ∀ token, brings token → ¬ holds token) :
      Stranger familyId userId holds t.store := by
    have each (w : RecordStatement) (mem : w ∈ batch) (x y : Records) (is : Stranger familyId userId holds x.store)
        (wrote : applyRecord w x = some y) : Stranger familyId userId holds y.store := by
      rcases recordSource wrote with same | ⟨v,rfl,saved⟩
      · exact same ▸ is
      · exact strangerSpared (made _ mem) joined brought is saved
    exact applyAllKeeps each stranger applied
  cases request with
  | createFamily ownerUserId ownerDisplayName name =>
    have apart : taken + i ≠ familyId := fun same => Nat.not_lt.mpr (Nat.le_add_right taken i) (same ▸ old)
    exact each made (fun same => absurd same apart) (fun same => absurd same apart)
  | listFamilies userId => exact made.elim
  | acceptInvitation now tokenHash caller email =>
    obtain ⟨s,j,known,found,-,-,made⟩ := made
    refine each made (fun own joins => ?_) (fun _ _ none => none.elim)
    have token : j.tokenHash = tokenHash := by simpa using List.find?_some found
    exact known.uninvited j (List.mem_of_find?_eq_some found) own (token ▸ out joins.symm)
  | «scoped» caller scope route =>
    refine each made (fun _ none => none) (fun own token brings => ?_)
    obtain ⟨now,email,role,existing,rfl⟩ := brings
    exact out own

theorem standsGated {taken number : Nat} {route : Route} : Gated (Spares familyId) (· = notFound .family)
    ((familyApi taken).start (.scoped userId familyId route) number)
    (.all [fun r => ∃ m, findStandingByUserId familyId userId r.store = some m]) := by
  have denied (gates : Gates Records) : Gated (Spares familyId) (· = notFound .family)
      (.commit [.audit (accessDenied userId familyId (taken + number))] fun _ => .returned (notFound .family)) gates :=
    ⟨.inr auditSpares,fun _ => .inl (.inr rfl)⟩
  simp only [familyApi,respond,familyMembershipGuardReads]
  refine gatedRead fun r => ?_
  split
  · refine gatedGate (fun u shut => ?_) (fun u _ => gatedNone _)
    cases standing : findStandingByUserId familyId userId u.store with
    | none => exact denied _
    | some m => exact absurd ⟨m,standing⟩ shut
  · exact denied _

variable {taken : Nat} {s : Records} {moves : List (Move Request)} {c : Interleaving.Config Records RecordStatement Answer}

theorem strangerRun (stranger : Stranger familyId userId holds s.store) (old : familyId < taken)
    (out : ∀ request ∈ begun moves, KeepsOut familyId userId holds request)
    (ran : run (familyApi taken) (begins s) moves = some c) : Stranger familyId userId holds c.store.store := by
  refine (runFollowedBy (KeepsOut familyId userId holds) (fun calls r => (∀ call ∈ calls, KeepsOut familyId userId holds call) ∧
    Stranger familyId userId holds r.store) (fun i call => requestMade call) And.right ?_ ?_ (nothingBegun s)
    ⟨fun _ none => absurd none List.not_mem_nil,stranger⟩ out (withinAny _ moves) ran).2.2
  · intro calls r call keeps ⟨before,is⟩
    refine ⟨fun other mem => ?_,is⟩
    rcases List.mem_append.mp mem with earlier | last
    · exact before other earlier
    · rwa [List.mem_singleton.mp last]
  · intro calls r t i call batch named ⟨before,is⟩ made _ applied
    exact ⟨before,strangerKept old (before call (List.mem_of_getElem? named)) made is applied⟩

theorem begunPrefix {first : List (Move Request)} (before : first <+: moves) : ∀ request ∈ begun first, request ∈ begun moves := by
  obtain ⟨rest,rfl⟩ := before
  intro request mem
  rw [begunAppend]
  exact List.mem_append_left _ mem

theorem strangerShut (stranger : Stranger familyId userId holds s.store) (old : familyId < taken)
    (out : ∀ request ∈ begun moves, KeepsOut familyId userId holds request) {first : List (Move Request)}
    (before : first <+: moves) {mid : Interleaving.Config Records RecordStatement Answer}
    (ran : run (familyApi taken) (begins s) first = some mid) : findStandingByUserId familyId userId mid.store.store = none := by
  cases standing : findStandingByUserId familyId userId mid.store.store with
  | none => rfl
  | some m =>
    have source := List.find?_some standing
    simp only [Bool.and_eq_true,decide_eq_true_eq] at source
    have stays := strangerRun stranger old (fun request mem => out request (begunPrefix before request mem)) ran
    exact absurd source.1.2 (stays.unlisted m (List.mem_of_find?_eq_some standing) source.1.1)

/-- Whatever the members of a family do in the meantime: a user who has no row in it, and
never presents the token of one of its invitations, is answered as if it did not exist and
changes nothing of it. -/
theorem strangerKeptOut (stranger : Stranger familyId userId holds s.store) (old : familyId < taken)
    (out : ∀ request ∈ begun moves, KeepsOut familyId userId holds request)
    (ran : run (familyApi taken) (begins s) moves = some c) :
    Stranger familyId userId holds c.store.store ∧
    (∀ (i : Nat) (route : Route) (a : Answer), (begun moves)[i]? = some (.scoped userId familyId route) →
      c.replies[i]? = some (some a) → a = notFound .family) ∧
    ∀ (i : Nat) (route : Route) (next : Interleaving.Config Records RecordStatement Answer),
      (begun moves)[i]? = some (.scoped userId familyId route) → move (familyApi taken) c (.advance i) = some next →
      partOf familyId next.store.store.toTables = partOf familyId c.store.store.toTables := by
  refine ⟨strangerRun stranger old out ran,fun i route a named answered => ?_,fun i route next named moved => ?_⟩
  · by_contra granted
    obtain ⟨first,mid,before,met,m,standing⟩ := clearedGate List.mem_cons_self (answeredCleared standsGated ran named answered granted)
    rw [strangerShut stranger old out before met] at standing
    cases standing
  · by_contra changed
    obtain ⟨j,request,same,at_,right⟩ := changesAuthorised ran moved changed
    cases same
    cases Option.some.inj (named.symm.trans at_)
    cases right with
    | member cleared =>
      obtain ⟨first,mid,before,met,m,standing,-⟩ := clearedGate (List.mem_cons_of_mem _ List.mem_cons_self) cleared
      rw [strangerShut stranger old out before met] at standing
      cases standing

end

theorem benKeptOut : Reaches (familyApi 4) (begins benLeft) benAsks (fun c =>
    c.replies[0]? = some (some (notFound .family))) := by
  obtain ⟨c,ran⟩ := Option.isSome_iff_exists.mp
    (by decide +kernel : (run (familyApi 4) (begins benLeft) benAsks).isSome)
  have stranger : Stranger 0 2 (fun _ => False) benLeft.store := ⟨by decide +kernel,fun _ _ _ none => none⟩
  have out : ∀ request ∈ begun benAsks, KeepsOut 0 2 (fun _ => False) request := by simp [benAsks,begun,KeepsOut]
  have answered : ((run (familyApi 4) (begins benLeft) benAsks).bind (·.replies[0]?)).bind id |>.isSome := by decide +kernel
  rw [ran] at answered
  obtain ⟨a,said⟩ := Option.isSome_iff_exists.mp answered
  obtain ⟨b,is,same⟩ := Option.bind_eq_some_iff.mp said
  obtain rfl : b = some a := same
  have shut := (strangerKeptOut stranger (by decide) out ran).2.1 0 .listMembers a rfl is
  exact ⟨c,ran,is.trans (congrArg (some ∘ some) shut)⟩

end FamilyPlatform.FamilyApi
