import FamilyPlatform.Api.FamilyChildren
import FamilyPlatform.Lib.Trails

/-! What the audit log accounts for. Every refusal by a guard and every look at a child's
record is there, under the correlation id of its request, and nothing else is. -/
namespace FamilyPlatform.FamilyApi
open Interleaving (Steps Move Reaches Gates Cleared Writes Ends Leaves begins begun run accountsRun leavesRead leavesGate
  leavesNothing writesAny writesMono writesBind writesRead endsBind)
open FamilyPlatform.Membership

def auditAdds : RecordStatement → List AuditEntry
  | .save _ => []
  | .audit entry => [entry]

theorem auditAppends {w : RecordStatement} {r t : Records} (wrote : applyRecord w r = some t) :
    t.audit = r.audit ++ auditAdds w := by
  cases w with
  | audit entry =>
    cases Option.some.inj wrote
    rfl
  | save v =>
    obtain ⟨next,-,last⟩ := Option.bind_eq_some_iff.mp wrote
    cases Option.some.inj last
    exact (List.append_nil _).symm

def Logged : Request → Answer → Prop
  | .scoped _ _ _, a => a.status = 403 ∨ ∃ detail, a.body = .member detail ∧ detail.kind = .child
  | _, _ => False

def entrance : Request → Gates Records
  | .scoped userId familyId route => .all [Open familyId,Holds familyId userId route.required]
  | .createFamily _ _ _ | .listFamilies _ | .acceptInvitation _ _ _ _ => .none

/- The entries of a request, by its answer and by whether the guards have let it through: only
then is it told of no family without an entry. -/
inductive Told (correlationId : Nat) (through : Prop) : Request → Option Answer → List AuditEntry → Prop where
  | refused {userId familyId route} : Told correlationId through (.scoped userId familyId route) (some (notFound .family))
      [accessDenied userId familyId correlationId]
  | lacking {userId familyId route context} (lacks : route.required ∉ capabilitiesFor context.role)
      (held : context.capabilities = capabilitiesFor context.role) :
      Told correlationId through (.scoped userId familyId route) (some (capabilityRequired .family route.required))
        [capabilityDenied userId familyId context route.required correlationId]
  | barred {userId familyId memberId caller} (passed : through) :
      Told correlationId through (.scoped userId familyId (.readMember memberId))
        (some ⟨403,.problem "family/guardianship_required" none⟩)
        [childRead familyId memberId caller (some userId) correlationId false]
  | shown {userId familyId detail caller} (passed : through) (child : detail.kind = .child) :
      Told correlationId through (.scoped userId familyId (.readMember detail.id)) (some ⟨200,.member detail⟩)
        [childRead familyId detail.id caller (some userId) correlationId true]
  | silent {request reply} (passed : ∀ a, reply = some a → through) (quiet : ∀ a, reply = some a → ¬ Logged request a) :
      Told correlationId through request reply []

theorem underWay {correlationId : Nat} {through : Prop} {request : Request} : Told correlationId through request none [] :=
  .silent (fun a none => by cases none) (fun a none => by cases none)

theorem toldMono {correlationId : Nat} {through passed : Prop} {request : Request} {reply : Option Answer}
    {entries : List AuditEntry} (told : Told correlationId through request reply entries) (so : through → passed) :
    Told correlationId passed request reply entries := by
  cases told with
  | refused => exact .refused
  | lacking lacks held => exact .lacking lacks held
  | barred through => exact .barred (so through)
  | shown through child => exact .shown (so through) child
  | silent through quiet => exact .silent (fun a is => so (through a is)) quiet

def Accounted (correlationId : Nat) (request : Request) (entries : List AuditEntry) (left : Gates Records)
    (reply : Option Answer) : Prop := Told correlationId (left = .none) request reply entries

section
variable {userId : UserId} {familyId : FamilyId} {correlationId : Nat}

theorem unlogged {route : Route} {a : Answer} (status : a.status ≠ 403) (body : ∀ detail, a.body ≠ .member detail) :
    ¬ Logged (.scoped userId familyId route) a := by
  rintro (is | ⟨detail,is,-⟩)
  · exact status is
  · exact body detail is

theorem answerUnlogged {route : Route} (read : ∀ memberId, route ≠ .readMember memberId) (reply : Reply) :
    ¬ Logged (.scoped userId familyId route) (route.answer reply) := by
  have done : route.success ≠ 403 := by cases route <;> simp [Route.success]
  have problem (e : DomainError) : ¬ Logged (.scoped userId familyId route) (route.problem e) := by
    unfold Route.problem
    split
    case h_4 memberId => exact absurd rfl (read memberId)
    all_goals refine unlogged ?_ ?_ <;> simp [Route.unprocessable,Route.conflict,notFound]
  cases reply with
  | failed e => exact problem e
  | _ => exact unlogged done (fun detail is => by cases is)

theorem savesNothing {Outcome : Type} (l : Steps Store Statement Outcome) :
    Writes (fun _ : Records => True) (fun batch => batch.flatMap auditAdds = []) (inRecords l) := by
  refine @inRecordsWrites (fun _ => True) _ _ l (writesAny fun batch => ?_)
  simp [List.flatMap_map,auditAdds]

theorem handlerUnlogged {route : Route} (read : ∀ memberId, route ≠ .readMember memberId) {context : FamilyContext} :
    Ends (fun _ => True) (fun a => ¬ Logged (.scoped userId familyId route) a)
        (handler route userId familyId correlationId context) ∧
      Writes (fun _ => True) (fun batch => batch.flatMap auditAdds = []) (handler route userId familyId correlationId context) := by
  have command {script : Script} : Ends (fun _ => True) (fun a => ¬ Logged (.scoped userId familyId route) a)
        ((inRecords script).bind fun reply => .returned (route.answer reply)) ∧
      Writes (fun _ => True) (fun batch => batch.flatMap auditAdds = [])
        ((inRecords script).bind fun reply => .returned (route.answer reply)) :=
    ⟨endsBind (answerUnlogged read),writesBind (savesNothing script) (fun _ => trivial)⟩
  cases route with
  | getFamily =>
    refine ⟨endsBind fun found => ?_,fun _ _ => trivial⟩
    cases found with
    | none => exact unlogged (by simp [notFound]) (by simp [notFound])
    | some f => exact unlogged (by simp) (by simp)
  | updateFamily name =>
    refine ⟨endsBind fun result => ?_,?_⟩
    · cases result with
      | error e => exact answerUnlogged read (.failed e)
      | ok f => exact unlogged (by simp [Route.outcome,Route.success]) (by simp [Route.outcome])
    · refine writesBind (writesRead fun r _ => ?_) (fun _ => trivial)
      split
      · trivial
      · split
        · exact ⟨rfl,fun _ _ => trivial⟩
        · split
          · trivial
          · exact ⟨rfl,fun _ _ => trivial⟩
  | listMembers => exact ⟨endsBind fun members => unlogged (by simp) (by simp),fun _ _ _ _ => trivial⟩
  | readMember memberId => exact absurd rfl (read memberId)
  | listInvitations => exact ⟨endsBind fun invitations => unlogged (by simp) (by simp),fun _ _ => trivial⟩
  | addMember kind displayName dateOfBirth => exact command
  | grantGuardianship child guardian => exact command
  | endGuardianship now child guardian => exact command
  | createInvitation now email role existing tokenHash => exact command
  | revokeInvitation now invitationId => exact command
  | changeMemberRole now memberId newRole => exact command
  | removeMember now memberId => exact command
  | transferOwnership toMemberId => exact command
  | requestFamilyDeletion now => exact command

theorem readMemberLeaves {memberId : FamilyMemberId} {context : FamilyContext} :
    Leaves auditAdds (Accounted correlationId (.scoped userId familyId (.readMember memberId))) [] .none
      (handler (.readMember memberId) userId familyId correlationId context) := by
  have absent : Accounted correlationId (.scoped userId familyId (.readMember memberId)) [] .none (some (notFound .family)) :=
    .silent (fun _ _ => rfl) (fun a is => Option.some.inj is ▸ unlogged (by simp [notFound]) (by simp [notFound]))
  simp only [handler,readMember,Steps.bind]
  refine leavesRead underWay fun r => ?_
  split
  · exact absent
  · rename_i member found
    obtain ⟨-,id,-⟩ := findByIdSource found
    split
    · exact absent
    · split
      · rename_i child
        refine leavesRead underWay fun t => ⟨underWay,fun _ => ?_⟩
        cases held : (findActive familyId context.memberId member.id t.store).isSome with
        | true =>
          obtain rfl := id
          exact @Told.shown correlationId _ userId familyId member.detail context.memberId rfl child
        | false =>
          obtain rfl := id
          exact Told.barred rfl
      · rename_i adult
        refine Told.silent (fun _ _ => rfl) (fun a is => Option.some.inj is ▸ ?_)
        rintro (status | ⟨detail,body,child⟩)
        · simp [Route.outcome,Route.success] at status
        · cases body
          exact adult child

theorem handlerLeaves {route : Route} {context : FamilyContext} :
    Leaves auditAdds (Accounted correlationId (.scoped userId familyId route)) [] .none
      (handler route userId familyId correlationId context) := by
  by_cases read : ∃ memberId, route = .readMember memberId
  · obtain ⟨memberId,rfl⟩ := read
    exact readMemberLeaves
  · have unlogged := @handlerUnlogged userId familyId correlationId route (fun memberId is => read ⟨memberId,is⟩) context
    exact leavesNothing unlogged.1 unlogged.2 underWay
      (fun a quiet => Told.silent (fun _ _ => rfl) (fun b is => Option.some.inj is ▸ quiet))

theorem scopedLeaves {taken number : Nat} {route : Route} :
    Leaves auditAdds (Accounted (taken + number) (.scoped userId familyId route)) []
      (entrance (.scoped userId familyId route)) ((familyApi taken).start (.scoped userId familyId route) number) := by
  have denied (gates : Gates Records) : Leaves auditAdds (Accounted (taken + number) (.scoped userId familyId route)) [] gates
      (.commit [.audit (accessDenied userId familyId (taken + number))] fun _ => .returned (notFound .family) : Recorded Answer) :=
    ⟨underWay,fun _ => Told.refused⟩
  simp only [familyApi,respond,familyMembershipGuardReads,entrance]
  refine leavesGate underWay (fun r shut => ?_) (fun r open_ => ?_)
  · rw [if_neg (fun stays => shut (openAny.mp stays))]
    exact denied _
  · rw [if_pos (openAny.mpr open_)]
    refine leavesGate underWay (fun u shut => ?_) (fun u holds => ?_)
    · cases standing : findStandingByUserId familyId userId u.store with
      | none => exact denied _
      | some m =>
        have lacks : route.required ∉ capabilitiesFor m.role := fun holds => shut ⟨m,standing,holds⟩
        simp only [Option.elim_some,capabilityGuard,lacks,if_false]
        exact ⟨underWay,fun _ => Told.lacking lacks rfl⟩
    · obtain ⟨m,standing,held⟩ := holds
      simp only [standing,Option.elim_some,capabilityGuard,held,if_true]
      exact handlerLeaves

theorem savesLeaves {request : Request} {l : Script} {f : Reply → Answer} (quiet : ∀ a, ¬ Logged request a) :
    Leaves auditAdds (Accounted correlationId request) [] .none ((inRecords l).bind fun reply => .returned (f reply)) := by
  have ends : Ends (fun _ => True) (fun _ => True) ((inRecords l).bind fun reply => .returned (f reply)) :=
    endsBind fun _ => trivial
  exact leavesNothing ends (writesBind (savesNothing l) (fun _ => trivial)) underWay
    (fun a _ => Told.silent (fun _ _ => rfl) (fun b _ => quiet b))

theorem createFamilyLeaves {taken number : Nat} {ownerUserId : UserId} {ownerDisplayName name : String} :
    Leaves auditAdds (Accounted (taken + number) (.createFamily ownerUserId ownerDisplayName name)) [] .none
      ((familyApi taken).start (.createFamily ownerUserId ownerDisplayName name) number) := by
  simp only [familyApi,respond]
  exact savesLeaves (fun _ => id)

theorem requestLeaves {taken number : Nat} (request : Request) :
    Leaves auditAdds (Accounted (taken + number) request) [] (entrance request) ((familyApi taken).start request number) := by
  cases request with
  | createFamily ownerUserId ownerDisplayName name => exact createFamilyLeaves
  | listFamilies userId => exact leavesRead underWay fun r => Told.silent (fun _ _ => rfl) (fun _ _ => id)
  | acceptInvitation now tokenHash userId email =>
    simp only [familyApi,respond]
    exact savesLeaves (fun _ => id)
  | «scoped» userId familyId route => exact scopedLeaves

theorem requestMarks {taken number : Nat} (request : Request) : Writes (fun _ : Records => True)
    (fun batch => ∀ e ∈ batch.flatMap auditAdds, decide (e.correlationId = taken + number))
    ((familyApi taken).start request number) := by
  refine writesMono (@requestMade (fun _ => True) taken number request) (fun batch made e mem => ?_)
  obtain ⟨scope,joins,brings,made⟩ := requestBound made
  obtain ⟨w,listed,adds⟩ := List.mem_flatMap.mp mem
  cases w with
  | save v => cases adds
  | audit entry =>
    rw [List.mem_singleton.mp adds]
    exact decide_eq_true (made _ listed).2

end

/-- In every run, the entries under the correlation id of a request are the ones that its
answer calls for, none while it is under way, and there is no entry of anything else. An
answer that left no entry was let through by both guards. -/
theorem auditAccounts {taken : Nat} {s : Records} {moves : List (Move Request)}
    {c : Interleaving.Config Records RecordStatement Answer} (older : ∀ e ∈ s.audit, e.correlationId < taken)
    (ran : run (familyApi taken) (begins s) moves = some c) :
    (∀ (i : Nat) request, (begun moves)[i]? = some request → ∃ reply, c.replies[i]? = some reply ∧
      Told (taken + i) (Cleared (familyApi taken) s moves i (entrance request)) request reply
        (c.store.audit.filter (fun e => e.correlationId = taken + i))) ∧
    ∃ entries, c.store.audit = s.audit ++ entries ∧
      ∀ e ∈ entries, ∃ i < (begun moves).length, e.correlationId = taken + i := by
  have fresh (i : Nat) : s.audit.filter (fun e => e.correlationId = taken + i) = [] := by
    refine List.filter_eq_nil_iff.mpr (fun e mem => ?_)
    have old := older e mem
    simp only [decide_eq_true_eq]
    omega
  have apart (i j : Nat) (e : AuditEntry) (one : decide (e.correlationId = taken + i) = true)
      (two : decide (e.correlationId = taken + j) = true) : i = j := by
    simp only [decide_eq_true_eq] at one two
    omega
  obtain ⟨each,entries,split,source⟩ := accountsRun (p := familyApi taken) auditAppends apart
    (fun i request => ⟨requestLeaves request,requestMarks request⟩) fresh ran
  refine ⟨fun i request named => ?_,entries,split,fun e mem => by simpa using source e mem⟩
  obtain ⟨reply,left,answered,since,told⟩ := each i request named
  refine ⟨reply,answered,toldMono told ?_⟩
  rintro rfl
  exact since

def bothAsk : List (Move Request) := [.begin (.scoped 5 0 .listMembers),.begin (.scoped 1 0 (.readMember 1)),
  .advance 0,.advance 1,.advance 1,.advance 0,.advance 1,.advance 1,.advance 0,.advance 1]

theorem bothAccounted : Reaches (familyApi 2) (begins withChild) bothAsk (fun c => c.store.audit.length = 2 ∧
    ∀ (i : Nat) request, (begun bothAsk)[i]? = some request → ∃ reply, c.replies[i]? = some reply ∧
      Told (2 + i) (Cleared (familyApi 2) withChild bothAsk i (entrance request)) request reply
        (c.store.audit.filter (fun e => e.correlationId = 2 + i))) := by
  obtain ⟨c,ran⟩ := Option.isSome_iff_exists.mp
    (by decide +kernel : (run (familyApi 2) (begins withChild) bothAsk).isSome)
  have count : (run (familyApi 2) (begins withChild) bothAsk).map (fun c => c.store.audit.length) = some 2 := by decide +kernel
  rw [ran] at count
  exact ⟨c,ran,Option.some.inj count,(auditAccounts (by simp [withChild]) ran).1⟩

end FamilyPlatform.FamilyApi
