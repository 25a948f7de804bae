import FamilyPlatform.Api.FamilyAccess

/-! Who is told about a child. The roster and the detail view tell a child's date of birth to a
guardian of the child and to nobody else. -/
namespace FamilyPlatform.FamilyApi
open Interleaving (Steps Move Reaches Gates Gated Cleared Ends begins begun run endsRead endsBind gatedEnds
  gatedRead gatedGate gatedNone answeredCleared)
open FamilyPlatform.Membership

def Tells (child : FamilyMemberId) (a : Answer) : Prop :=
  (∃ detail, a.body = .member detail ∧ detail.id = child ∧ detail.kind = .child) ∨
  ∃ members, a.body = .members members ∧ ∃ m ∈ members, m.id = child ∧ m.kind = .child ∧ m.dateOfBirth.isSome

def guardGates (familyId : FamilyId) (userId : UserId) (child : FamilyMemberId) : Gates Records :=
  .gate (Open familyId) fun _ =>
  .gate (Holds familyId userId .membersRead) fun r =>
  .gate (fun t => ∃ m, findStandingByUserId familyId userId r.store = some m ∧
    (findActive familyId m.id child t.store).isSome) fun _ => .none

section
variable {familyId : FamilyId} {userId : UserId} {child : FamilyMemberId}

theorem problemSilent {status : Nat} {type : String} {detail : Option String} : ¬ Tells child ⟨status,.problem type detail⟩ := by
  rintro (⟨d,is,-⟩ | ⟨members,is,-⟩) <;> cases is

theorem answerSilent {route : Route} {reply : Reply} : ¬ Tells child (route.answer reply) := by
  have problem (e : DomainError) : ¬ Tells child (route.problem e) := by
    unfold Route.problem
    split <;> exact problemSilent
  cases reply with
  | failed e => exact problem e
  | _ => rintro (⟨d,is,-⟩ | ⟨members,is,-⟩) <;> cases is

theorem handlerSilent {route : Route} (list : route ≠ .listMembers) (read : ∀ memberId, route ≠ .readMember memberId)
    {fresh : Nat} {context : FamilyContext} :
    Ends (fun _ => True) (fun a => ¬ Tells child a) (handler route userId familyId fresh context) := by
  have command {script : Script} : Ends (fun _ => True) (fun a => ¬ Tells child a)
      ((inRecords script).bind fun reply => .returned (route.answer reply)) := endsBind (fun _ => answerSilent)
  cases route with
  | getFamily =>
    refine endsBind fun found => ?_
    cases found with
    | none => exact problemSilent
    | some f => rintro (⟨d,is,-⟩ | ⟨members,is,-⟩) <;> cases is
  | updateFamily name =>
    refine endsBind fun result => ?_
    cases result with
    | error e => exact @answerSilent child (.updateFamily name) (.failed e)
    | ok f => rintro (⟨d,is,-⟩ | ⟨members,is,-⟩) <;> cases is
  | listMembers => exact absurd rfl list
  | readMember memberId => exact absurd rfl (read memberId)
  | listInvitations => exact endsBind fun invitations => by rintro (⟨d,is,-⟩ | ⟨members,is,-⟩) <;> cases is
  | addMember kind displayName dateOfBirth => exact command
  | grantGuardianship child guardian => exact command
  | endGuardianship now child guardian => exact command
  | createInvitation now email role existing tokenHash => exact command
  | revokeInvitation now invitationId => exact command
  | changeMemberRole now memberId newRole => exact command
  | removeMember now memberId => exact command
  | transferOwnership toMemberId => exact command
  | requestFamilyDeletion now => exact command

theorem silentGated {taken number : Nat} {route : Route} (list : route ≠ .listMembers)
    (read : ∀ memberId, route ≠ .readMember memberId) {gates : Gates Records} :
    Gated (fun _ => True) (fun a => ¬ Tells child a) ((familyApi taken).start (.scoped userId familyId route) number) gates := by
  refine gatedEnds ?_ (fun _ => trivial)
  simp only [familyApi,respond,familyMembershipGuardReads]
  refine endsRead fun r _ => ?_
  split
  · refine endsRead fun u _ => ?_
    cases findStandingByUserId familyId userId u.store with
    | none => exact fun _ _ => problemSilent
    | some m =>
      simp only [Option.elim_some,capabilityGuard]
      split
      · exact handlerSilent list read
      · exact fun _ _ => problemSilent
  · exact fun _ _ => problemSilent

theorem guardedActive {caller : FamilyMemberId} {s : Store} (shut : ¬ (findActive familyId caller child s).isSome) :
    child ∉ listActiveChildIdsGuardedBy familyId caller s := by
  intro mem
  obtain ⟨g,listed,rfl⟩ := List.mem_map.mp mem
  obtain ⟨there,is⟩ := List.mem_filter.mp listed
  simp only [Bool.and_eq_true,decide_eq_true_eq] at is
  refine shut (List.find?_isSome.mpr ⟨g,there,?_⟩)
  simp [is.1.1,is.1.2,is.2]

theorem listMembersGated {fresh : Nat} {context : FamilyContext} {isOpen : Records → Prop}
    (opens : ∀ t, (findActive familyId context.memberId child t.store).isSome → isOpen t) :
    Gated (fun _ => True) (fun a => ¬ Tells child a) (handler .listMembers userId familyId fresh context)
      (.gate isOpen fun _ => .none) := by
  refine gatedRead fun r => gatedGate (fun t shut => .inr ?_) (fun t _ => gatedNone _)
  have unguarded := guardedActive (fun is => shut (opens t is))
  rintro (⟨d,is,-⟩ | ⟨members,is,m,mem,id,kind,told⟩)
  · cases is
  · cases is
    obtain ⟨row,-,rfl⟩ := List.mem_map.mp mem
    simp only [summarise] at id kind told
    rw [id,kind] at told
    simp [unguarded] at told

theorem readMemberGated {memberId : FamilyMemberId} {fresh : Nat} {context : FamilyContext} {isOpen : Records → Prop}
    (opens : ∀ t, (findActive familyId context.memberId child t.store).isSome → isOpen t) :
    Gated (fun _ => True) (fun a => ¬ Tells child a) (handler (.readMember memberId) userId familyId fresh context)
      (.gate isOpen fun _ => .none) := by
  have silent (gates : Gates Records) (e : DomainError) : Gated (fun _ : List RecordStatement => True) (fun a => ¬ Tells child a)
      (.returned ((Route.readMember memberId).outcome .member (.error e)) : Recorded Answer) gates :=
    .inr (@answerSilent child (.readMember memberId) (.failed e))
  simp only [handler,readMember,Steps.bind]
  refine gatedRead fun r => ?_
  split
  · exact silent _ _
  · rename_i member found
    split
    · exact silent _ _
    · split
      · refine gatedGate (fun t shut => ?_) (fun t _ => gatedNone _)
        refine ⟨.inr trivial,fun _ => .inl ?_⟩
        split
        · exact silent _ _
        · rename_i granted
          refine .inr ?_
          rintro (⟨d,is,id,-⟩ | ⟨members,is,-⟩)
          · cases is
            obtain rfl : member.id = child := id
            exact shut (opens t (by simpa [Option.isSome_iff_ne_none] using granted))
          · cases is
      · rename_i adult
        refine .inr ?_
        rintro (⟨d,is,-,kind⟩ | ⟨members,is,-⟩)
        · cases is
          exact adult kind
        · cases is

theorem guardedGated {taken number : Nat} {route : Route} (required : route.required = .membersRead)
    (handled : ∀ (context : FamilyContext) (isOpen : Records → Prop),
      (∀ t, (findActive familyId context.memberId child t.store).isSome → isOpen t) →
      Gated (fun _ => True) (fun a => ¬ Tells child a) (handler route userId familyId (taken + number) context)
        (.gate isOpen fun _ => .none)) : Gated (fun _ => True) (fun a => ¬ Tells child a)
      ((familyApi taken).start (.scoped userId familyId route) number) (guardGates familyId userId child) := by
  have denied (gates : Gates Records) : Gated (fun _ : List RecordStatement => True) (fun a => ¬ Tells child a)
      (.commit [.audit (accessDenied userId familyId (taken + number))] fun _ => .returned (notFound .family)) gates :=
    ⟨.inr trivial,fun _ => .inl (.inr problemSilent)⟩
  simp only [familyApi,respond,familyMembershipGuardReads,guardGates]
  refine gatedGate (fun r shut => ?_) (fun r stays => ?_)
  · rw [if_neg (fun stays => shut (openAny.mp stays))]
    exact denied _
  · rw [if_pos (openAny.mpr stays)]
    refine gatedGate (fun u shut => ?_) (fun u holds => ?_)
    · cases standing : findStandingByUserId familyId userId u.store with
      | none => exact denied _
      | some m =>
        have lacks : route.required ∉ capabilitiesFor m.role := fun holds => shut ⟨m,standing,required ▸ holds⟩
        simp only [Option.elim_some,capabilityGuard,lacks,if_false]
        exact ⟨.inr trivial,fun _ => .inl (.inr problemSilent)⟩
    · obtain ⟨m,standing,holds⟩ := holds
      have may : route.required ∈ capabilitiesFor m.role := required ▸ holds
      simp only [standing,Option.elim_some,capabilityGuard,may,if_true]
      exact handled ⟨m.id,m.role,capabilitiesFor m.role⟩ _ (fun t guards => ⟨m,rfl,guards⟩)

theorem childGated {taken number : Nat} {route : Route} : Gated (fun _ => True) (fun a => ¬ Tells child a)
    ((familyApi taken).start (.scoped userId familyId route) number) (guardGates familyId userId child) := by
  by_cases list : route = .listMembers
  · subst list
    exact guardedGated rfl (fun context isOpen opens => listMembersGated opens)
  · by_cases read : ∃ memberId, route = .readMember memberId
    · obtain ⟨memberId,rfl⟩ := read
      exact guardedGated rfl (fun context isOpen opens => readMemberGated opens)
    · exact silentGated list (fun memberId is => read ⟨memberId,is⟩)

end

/-- An answer tells a child's date of birth only if, since the request began, the family was
open, then the user stood in it, and then the member that the user stood as guarded the child. -/
theorem childGuarded {taken : Nat} {s : Records} {moves : List (Move Request)} {familyId : FamilyId}
    {c : Interleaving.Config Records RecordStatement Answer} (ran : run (familyApi taken) (begins s) moves = some c)
    {i : Nat} {userId : UserId} {route : Route} {a : Answer} {child : FamilyMemberId}
    (named : (begun moves)[i]? = some (.scoped userId familyId route)) (answered : c.replies[i]? = some (some a))
    (tells : Tells child a) : Cleared (familyApi taken) s moves i (guardGates familyId userId child) := by
  exact answeredCleared childGated ran named answered (not_not.mpr tells)

def withChild : Records := ⟨(Interleaving.serial commands 0 .empty
  [.createFamily 1 "Ann" "Home",.addMember 0 0 .child "Cid" (some 5)]).2,[]⟩

def annLooks : List (Move Request) :=
  [.begin (.scoped 1 0 (.readMember 1)),.advance 0,.advance 0,.advance 0,.advance 0,.advance 0]

theorem annGuards : Reaches (familyApi 2) (begins withChild) annLooks (fun c =>
    c.replies[0]? = some (some ⟨200,.member ⟨1,.child,.viewer,some "Cid",some 5⟩⟩) ∧
      Cleared (familyApi 2) withChild annLooks 0 (guardGates 0 1 1)) := by
  obtain ⟨c,ran⟩ := Option.isSome_iff_exists.mp
    (by decide +kernel : (run (familyApi 2) (begins withChild) annLooks).isSome)
  have said : (run (familyApi 2) (begins withChild) annLooks).bind (·.replies[0]?) =
      some (some ⟨200,.member ⟨1,.child,.viewer,some "Cid",some 5⟩⟩) := by decide +kernel
  rw [ran] at said
  exact ⟨c,ran,said,childGuarded ran rfl said (.inl ⟨_,rfl,rfl,rfl⟩)⟩

end FamilyPlatform.FamilyApi
