import FamilyPlatform.Api.FamilyWrites

/-! Who may change what a family holds, and who is answered. Whatever the order in which
requests take their steps, nothing of a family changes but through one that was let through
since it began. -/
namespace FamilyPlatform.FamilyApi
open Interleaving (Move Reaches Gates Gated Cleared clearedGate begins begun begunLength run move moveCases
  advanceCases writesMono gatedGate gatedFree gatedUnless gatedNone committedCleared answeredCleared)
open FamilyPlatform.Membership

def Open (familyId : FamilyId) (r : Records) : Prop :=
  ∃ f, findCurrent familyId r.store = some f ∧ f.deletionRequestedAt = none

def Holds (familyId : FamilyId) (userId : UserId) (required : Capability) (r : Records) : Prop :=
  ∃ m, findStandingByUserId familyId userId r.store = some m ∧ required ∈ capabilitiesFor m.role

def Invites (familyId : FamilyId) (now : Instant) (tokenHash : String) (email : EmailAddress) (r : Records) : Prop :=
  ∃ i, findByTokenHash tokenHash r.store = some i ∧ i.familyId = familyId ∧ i.isAcceptable now ∧ i.email = email

/-- By what right the call of a number changes a family: it is the founder's, it brings an
invitation of the family, or it comes from a member of a role that the route asks for. -/
inductive Authorised (taken : Nat) (s : Records) (moves : List (Move Request)) (familyId : FamilyId) (i : Nat) :
    Request → Prop where
  | founder {ownerUserId ownerDisplayName name} (own : familyId = taken + i) :
      Authorised taken s moves familyId i (.createFamily ownerUserId ownerDisplayName name)
  | invited {now tokenHash userId email}
      (cleared : Cleared (familyApi taken) s moves i (.all [Invites familyId now tokenHash email])) :
      Authorised taken s moves familyId i (.acceptInvitation now tokenHash userId email)
  | member {userId route}
      (cleared : Cleared (familyApi taken) s moves i (.all [Open familyId,Holds familyId userId route.required])) :
      Authorised taken s moves familyId i (.scoped userId familyId route)

theorem openAny {familyId : FamilyId} {r : Records} :
    (findCurrent familyId r.store).any (·.deletionRequestedAt.isNone) ↔ Open familyId r := by
  simp [Open,Option.any_eq_true]

def Refusal (route : Route) (a : Answer) : Prop := a = notFound .family ∨ a = capabilityRequired .family route.required

theorem scopedGated {taken number : Nat} {userId : UserId} {familyId : FamilyId} {route : Route} :
    Gated (Spares familyId) (Refusal route) ((familyApi taken).start (.scoped userId familyId route) number)
      (.all [Open familyId,Holds familyId userId route.required]) := by
  have denied (gates : Gates Records) : Gated (Spares familyId) (Refusal route)
      (.commit [.audit (accessDenied userId familyId (taken + number))] fun _ => .returned (notFound .family)) gates :=
    ⟨.inr auditSpares,fun _ => .inl (.inr (.inl rfl))⟩
  simp only [familyApi,respond,familyMembershipGuardReads]
  refine gatedGate (fun r shut => ?_) (fun r open_ => ?_)
  · rw [if_neg (fun stays => shut (openAny.mp stays))]
    exact denied _
  · rw [if_pos (openAny.mpr open_)]
    refine gatedGate (fun u shut => ?_) (fun u _ => gatedNone _)
    cases standing : findStandingByUserId familyId userId u.store with
    | none => exact denied _
    | some m =>
      have lacks : route.required ∉ capabilitiesFor m.role := fun holds => shut ⟨m,standing,holds⟩
      simp only [Option.elim_some,capabilityGuard,lacks,if_false]
      exact ⟨.inr auditSpares,fun _ => .inl (.inr (.inr rfl))⟩

theorem otherGated {taken number : Nat} {userId : UserId} {familyId other : FamilyId} {route : Route}
    {gates : Gates Records} (apart : other ≠ familyId) : Gated (Spares familyId) (fun _ => True)
      ((familyApi taken).start (.scoped userId other route) number) gates :=
  gatedFree (writesMono (@scopedRequestMade (fun _ => True) taken number userId other route)
    (fun _ made => madeSpares apart made)) (fun _ => trivial)

theorem acceptGated {taken number : Nat} {familyId : FamilyId} {now : Instant} {tokenHash : String} {userId : UserId}
    {email : EmailAddress} : Gated (Spares familyId) (fun _ => True)
      ((familyApi taken).start (.acceptInvitation now tokenHash userId email) number)
      (.all [Invites familyId now tokenHash email]) := by
  let shut (s : Store) : Prop := ¬ ∃ i, findByTokenHash tokenHash s = some i ∧ i.familyId = familyId ∧
    i.isAcceptable now ∧ i.email = email
  refine gatedUnless (writesMono (@acceptRequestMade shut taken number now tokenHash userId email) ?_) (fun _ => trivial)
  rintro batch ⟨s,i,shut,found,live,own,made⟩
  exact madeSpares (fun is => shut ⟨i,found,is,live,own⟩) made

theorem founderGated {taken number : Nat} {familyId : FamilyId} {ownerUserId : UserId} {ownerDisplayName name : String}
    {gates : Gates Records} (apart : taken + number ≠ familyId) : Gated (Spares familyId) (fun _ => True)
      ((familyApi taken).start (.createFamily ownerUserId ownerDisplayName name) number) gates := by
  have made := @createFamilyRequestMade (fun _ => True) taken number ownerUserId ownerDisplayName name
  generalize (familyApi taken).start (.createFamily ownerUserId ownerDisplayName name) number = script at made ⊢
  exact gatedFree (writesMono made (fun _ own => madeSpares apart own)) (fun _ => trivial)

theorem changesAuthorised {taken : Nat} {s : Records} {moves : List (Move Request)} {familyId : FamilyId}
    {c next : Interleaving.Config Records RecordStatement Answer} {m : Move Request}
    (ran : run (familyApi taken) (begins s) moves = some c) (moved : move (familyApi taken) c m = some next)
    (changed : partOf familyId next.store.store.toTables ≠ partOf familyId c.store.store.toTables) :
    ∃ i request, m = .advance i ∧ (begun moves)[i]? = some request ∧ Authorised taken s moves familyId i request := by
  obtain ⟨call,rfl,rfl⟩ | ⟨i,l,l',r,rfl,found,stepped,rfl⟩ := moveCases moved
  · exact absurd rfl changed
  · obtain ⟨after,rfl,rfl,rfl⟩ | ⟨batch,after,rfl,applied,rfl⟩ | ⟨batch,after,rfl,rfl,rfl⟩ := advanceCases stepped
    · exact absurd rfl changed
    · have touches : ¬ Spares familyId batch := fun spares => changed (recordSpared spares applied)
      have lt : i < (begun moves).length := by
        have count := begunLength ran
        rw [show (begins s : Interleaving.Config Records RecordStatement Answer).calls.length = 0 from rfl,Nat.zero_add] at count
        rw [← count]
        exact (List.getElem?_eq_some_iff.mp found).1
      have named : (begun moves)[i]? = some (begun moves)[i] := List.getElem?_eq_getElem lt
      refine ⟨i,(begun moves)[i],rfl,named,?_⟩
      generalize (begun moves)[i] = request at named
      have cleared {refused : Answer → Prop} {gates : Gates Records}
          (gated : Gated (Spares familyId) refused ((familyApi taken).start request i) gates) :
          Cleared (familyApi taken) s moves i gates := committedCleared gated ran named found touches
      -- a gate that is never open stands for a call that has no business with the family
      have barred (gated : Gated (Spares familyId) (fun _ => True) ((familyApi taken).start request i) (.all [fun _ => False])) :
          False := by
        obtain ⟨-,-,-,-,shut⟩ := clearedGate List.mem_cons_self (cleared gated)
        exact shut
      cases request with
      | createFamily ownerUserId ownerDisplayName name =>
        refine .founder (by_contra fun other => barred ?_)
        exact @founderGated taken i familyId ownerUserId ownerDisplayName name _ (Ne.symm other)
      | listFamilies userId => exact (barred (gatedFree (fun _ _ => trivial) (fun _ => trivial))).elim
      | acceptInvitation now tokenHash userId email =>
        exact .invited (cleared (@acceptGated taken i familyId now tokenHash userId email))
      | «scoped» userId other route =>
        by_cases own : other = familyId
        · subst own
          exact .member (cleared (@scopedGated taken i userId other route))
        · exact (barred (@otherGated taken i userId familyId other route _ own)).elim
    · exact absurd rfl changed

theorem answersAuthorised {taken : Nat} {s : Records} {moves : List (Move Request)} {familyId : FamilyId}
    {c : Interleaving.Config Records RecordStatement Answer} {i : Nat} {userId : UserId} {route : Route} {a : Answer}
    (ran : run (familyApi taken) (begins s) moves = some c)
    (named : (begun moves)[i]? = some (.scoped userId familyId route)) (answered : c.replies[i]? = some (some a))
    (granted : ¬ Refusal route a) :
    Cleared (familyApi taken) s moves i (.all [Open familyId,Holds familyId userId route.required]) := by
  exact answeredCleared scopedGated ran named answered granted

/-- The guards mediate whatever happens to a family: each change, and each answer with more
than a refusal, is by a right that was held at a moment since the request began. -/
theorem familyMediated {taken : Nat} {s : Records} {moves : List (Move Request)} {familyId : FamilyId}
    {c : Interleaving.Config Records RecordStatement Answer} (ran : run (familyApi taken) (begins s) moves = some c) :
    (∀ m next, move (familyApi taken) c m = some next →
      partOf familyId next.store.store.toTables ≠ partOf familyId c.store.store.toTables →
      ∃ i request, m = .advance i ∧ (begun moves)[i]? = some request ∧ Authorised taken s moves familyId i request) ∧
    ∀ i userId route a, (begun moves)[i]? = some (.scoped userId familyId route) → c.replies[i]? = some (some a) →
      ¬ Refusal route a → Cleared (familyApi taken) s moves i (.all [Open familyId,Holds familyId userId route.required]) :=
  ⟨fun _ _ moved changed => changesAuthorised ran moved changed,
    fun _ _ _ _ named answered granted => answersAuthorised ran named answered granted⟩

def benJoins : List (Move Request) := [.begin (.acceptInvitation 1 "token" 2 ⟨"ben@example.org"⟩),.advance 0]

theorem benAuthorised : Reaches (familyApi 2) (begins ⟨awaitingBen,[]⟩) benJoins (fun c =>
    ∃ next, move (familyApi 2) c (.advance 0) = some next ∧ ∃ i request, (.advance 0 : Move Request) = .advance i ∧
      (begun benJoins)[i]? = some request ∧ Authorised 2 ⟨awaitingBen,[]⟩ benJoins 0 i request) := by
  obtain ⟨c,ran⟩ := Option.isSome_iff_exists.mp
    (by decide +kernel : (run (familyApi 2) (begins ⟨awaitingBen,[]⟩) benJoins).isSome)
  have changes : (run (familyApi 2) (begins ⟨awaitingBen,[]⟩) benJoins).any (fun c =>
      (move (familyApi 2) c (.advance 0)).any (fun next =>
        partOf 0 next.store.store.toTables ≠ partOf 0 c.store.store.toTables)) := by decide +kernel
  rw [ran,Option.any_some] at changes
  obtain ⟨next,moved,changed⟩ := (Option.any_eq_true ..).mp changes
  exact ⟨c,ran,next,moved,(familyMediated ran).1 _ next moved (by simpa using changed)⟩

end FamilyPlatform.FamilyApi
