import FamilyPlatform.Api.FamilyRoutes
import FamilyPlatform.Membership.Made

/-! What each request may write: the rows of the family that it names, or of the one that it
founds or joins, and audit rows of that family. -/
namespace FamilyPlatform.FamilyApi
open Interleaving (Writes alone applyAll applyAllKeeps writesRead writesBind writesMono writesOver writesLift)
open FamilyPlatform.Membership

theorem applyAllSaved (batch : List Statement) (r : Records) :
    applyAll applyRecord (batch.map .save) r = (applyAll apply batch r.store).map (fun store => { r with store }) := by
  induction batch generalizing r with
  | nil => rfl
  | cons w rest ih =>
    simp only [List.map_cons,applyAll,applyRecord,bind]
    cases apply w r.store with
    | none => rfl
    | some next => exact ih { r with store := next }

theorem aloneInRecords {Outcome : Type} (l : Interleaving.Steps Store Statement Outcome) (r : Records) :
    alone applyRecord (inRecords l) r =
      ((alone apply l r.store).1,{ r with store := (alone apply l r.store).2 }) := by
  unfold inRecords
  induction l generalizing r with
  | returned reply => rfl
  | thrown => rfl
  | read next ih => exact ih r.store r
  | commit batch next ih =>
    simp only [Interleaving.Steps.over,Interleaving.Steps.lift,alone,applyAllSaved]
    cases applyAll apply batch r.store with
    | none => rfl
    | some t => exact ih r.store { r with store := t }

def Enrols (scope : FamilyId) (batch : List RecordStatement) (id : FamilyMemberId) : Prop :=
  ∃ m, .save (.saveMember scope m) ∈ batch ∧ m.id = id

def RecordMade (kept : Store → Prop) (scope : FamilyId) (fresh : Nat) (own : FamilyMemberId → Prop)
    (joins : UserId → Prop) (brings : String → Prop) : RecordStatement → Prop
  | .save w => Made kept scope fresh own joins brings w
  | .audit entry => entry.familyId = scope ∧ entry.correlationId = fresh

def BatchMade (kept : Store → Prop) (scope : FamilyId) (fresh : Nat) (joins : UserId → Prop) (brings : String → Prop)
    (batch : List RecordStatement) : Prop :=
  ∀ w ∈ batch, RecordMade kept scope fresh (Enrols scope batch) joins brings w

def Route.brings (route : Route) (tokenHash : String) : Prop :=
  ∃ now email role existing, route = .createInvitation now email role existing tokenHash

def RequestMade (kept : Store → Prop) (taken number : Nat) : Request → List RecordStatement → Prop
  | .createFamily ownerUserId _ _, batch =>
    BatchMade kept (taken + number) (taken + number) (· = ownerUserId) (fun _ => False) batch
  | .listFamilies _, _ => False
  | .acceptInvitation now tokenHash userId email, batch =>
    ∃ s i, kept s ∧ findByTokenHash tokenHash s = some i ∧ i.isAcceptable now ∧ i.email = email ∧
      BatchMade kept i.familyId (taken + number) (· = userId) (fun _ => False) batch
  | .scoped _ familyId route, batch =>
    BatchMade kept familyId (taken + number) (fun _ => False) route.brings batch

section
variable {kept : Store → Prop}

theorem inRecordsWrites {Outcome : Type} {batches : List RecordStatement → Prop} {l : Interleaving.Steps Store Statement Outcome}
    (writes : Writes kept (fun batch => batches (batch.map .save)) l) :
    Writes (fun r : Records => kept r.store) batches (inRecords l) := by
  have lifted : Writes (fun r : Records => kept r.store) (fun batch => batches (batch.map RecordStatement.save))
      (l.over Records.store) := writesOver writes
  exact writesLift lifted

variable {scope : FamilyId} {fresh : Nat} {joins : UserId → Prop} {brings : String → Prop}

theorem batchMade {batch : List Statement} (made : ∀ w ∈ batch, Made kept scope fresh (Saves scope batch) joins brings w) :
    BatchMade kept scope fresh joins brings (batch.map .save) := by
  intro w mem
  obtain ⟨v,listed,rfl⟩ := List.mem_map.mp mem
  have same : Enrols scope (batch.map .save) = Saves scope batch := by
    funext id
    simp [Enrols,Saves]
  rw [same]
  exact made v listed

theorem inRecordsMade {l : Script}
    (writes : Writes kept (fun batch => ∀ w ∈ batch, Made kept scope fresh (Saves scope batch) joins brings w) l) :
    Writes (fun r : Records => kept r.store) (BatchMade kept scope fresh joins brings)
      (inRecords l) := inRecordsWrites (writesMono writes (fun _ made => batchMade made))

theorem updateFamilyMade {name : Option String} : Writes (fun r : Records => kept r.store)
    (BatchMade kept scope fresh joins brings) (updateFamily scope name) := by
  unfold updateFamily
  refine writesRead fun r known => ?_
  split
  · trivial
  · rename_i aggregate found
    split
    · exact ⟨List.forall_mem_singleton.mpr (.family known found rfl),fun _ _ => trivial⟩
    · split
      · trivial
      · rename_i renamed ok
        have same : renamed.id = aggregate.id := by
          simp only [Family.rename] at ok
          split at ok <;> cases ok
          rfl
        exact ⟨List.forall_mem_singleton.mpr (.family known found same),fun _ _ => trivial⟩

theorem readMemberMade {memberId callerMemberId : FamilyMemberId} {callerUserId : Option UserId} :
    Writes (fun r : Records => kept r.store) (BatchMade kept scope fresh joins brings)
      (readMember scope memberId callerMemberId callerUserId fresh) := by
  unfold readMember
  refine writesRead fun r _ => ?_
  split
  · trivial
  · split
    · trivial
    · split
      · exact writesRead fun r _ => ⟨List.forall_mem_singleton.mpr ⟨rfl,rfl⟩,fun _ _ => trivial⟩
      · trivial

theorem handlerMade (route : Route) (userId : UserId) (context : FamilyContext) 
    (by_ : ∃ s, kept s ∧ ∃ r ∈ s.members.rows, r.id = context.memberId ∧ r.familyId = scope) :
    Writes (fun r : Records => kept r.store)
      (BatchMade kept scope fresh (fun _ => False) route.brings)
      (handler route userId scope fresh context) := by
  have command {script : Script}
      (made : Writes kept (fun batch => ∀ w ∈ batch, Made kept scope fresh (Saves scope batch) (fun _ => False)
        route.brings w) script) :
      Writes (fun r : Records => kept r.store)
        (BatchMade kept scope fresh (fun _ => False) route.brings)
        ((inRecords script).bind fun reply => .returned (route.answer reply)) :=
    writesBind (inRecordsMade made) (fun _ => trivial)
  cases route with
  | getFamily => exact fun r _ => trivial
  | updateFamily name => exact writesBind updateFamilyMade (fun _ => trivial)
  | listMembers => exact fun r _ u _ => trivial
  | readMember memberId => exact writesBind readMemberMade (fun _ => trivial)
  | addMember kind displayName dateOfBirth => exact command addMemberMade
  | grantGuardianship child guardian => exact command grantGuardianshipMade
  | endGuardianship now child guardian => exact command endGuardianshipMade
  | createInvitation now email role existing tokenHash =>
    exact command (createInvitationMade by_ ⟨now,email,role,existing,rfl⟩)
  | listInvitations => exact fun r _ => trivial
  | revokeInvitation now invitationId => exact command revokeInvitationMade
  | changeMemberRole now memberId newRole => exact command changeMemberRoleMade
  | removeMember now memberId => exact command removeMemberMade
  | transferOwnership toMemberId => exact command transferOwnershipMade
  | requestFamilyDeletion now => exact command requestFamilyDeletionMade

end

section
variable {kept : Store → Prop} {taken number : Nat}

theorem createFamilyRequestMade {ownerUserId : UserId} {ownerDisplayName name : String} :
    Writes (fun r : Records => kept r.store) (RequestMade kept taken number (.createFamily ownerUserId ownerDisplayName name))
      ((familyApi taken).start (.createFamily ownerUserId ownerDisplayName name) number) := by
  simp only [familyApi,respond]
  exact writesBind (inRecordsMade createFamilyMade) (fun _ => trivial)

theorem acceptRequestMade {now : Instant} {tokenHash : String} {userId : UserId} {email : EmailAddress} :
    Writes (fun r : Records => kept r.store) (RequestMade kept taken number (.acceptInvitation now tokenHash userId email))
      ((familyApi taken).start (.acceptInvitation now tokenHash userId email) number) := by
  simp only [familyApi,respond]
  have base := @acceptInvitationMade kept (taken + number) (fun _ => False) now tokenHash userId email
  refine writesBind (inRecordsWrites (writesMono base ?_)) (fun _ => trivial)
  rintro batch ⟨s,i,known,found,live,own,made⟩
  exact ⟨s,i,known,found,live,own,batchMade made⟩

theorem scopedRequestMade {userId : UserId} {familyId : FamilyId} {route : Route} :
    Writes (fun r : Records => kept r.store) (RequestMade kept taken number (.scoped userId familyId route))
      ((familyApi taken).start (.scoped userId familyId route) number) := by
  have denied (entry : AuditEntry) (a : Answer) (own : entry.familyId = familyId ∧ entry.correlationId = taken + number) :
      Writes (fun r : Records => kept r.store)
      (RequestMade kept taken number (.scoped userId familyId route)) (.commit [.audit entry] fun _ => .returned a) :=
    ⟨List.forall_mem_singleton.mpr own,fun _ _ => trivial⟩
  simp only [familyApi,respond,familyMembershipGuardReads]
  refine writesRead fun r _ => ?_
  split
  · refine writesRead fun u known => ?_
    cases standing : findStandingByUserId familyId userId u.store with
    | none => exact denied (accessDenied userId familyId (taken + number)) _ ⟨rfl,rfl⟩
    | some m =>
      simp only [Option.elim_some,capabilityGuard]
      split
      · have source := List.find?_some standing
        simp only [Bool.and_eq_true,decide_eq_true_eq] at source
        exact handlerMade route userId ⟨m.id,m.role,capabilitiesFor m.role⟩
          ⟨u.store,known,m,List.mem_of_find?_eq_some standing,rfl,source.1.1⟩
      · refine denied _ _ ?_
        exact ⟨rfl,rfl⟩
  · exact denied (accessDenied userId familyId (taken + number)) _ ⟨rfl,rfl⟩

theorem requestMade (request : Request) : Writes (fun r : Records => kept r.store)
    (RequestMade kept taken number request) ((familyApi taken).start request number) := by
  cases request with
  | createFamily ownerUserId ownerDisplayName name => exact createFamilyRequestMade
  | listFamilies userId => exact fun r _ => trivial
  | acceptInvitation now tokenHash userId email => exact acceptRequestMade
  | «scoped» userId familyId route => exact scopedRequestMade

end

theorem requestBound {kept : Store → Prop} {taken number : Nat} {request : Request} {batch : List RecordStatement}
    (made : RequestMade kept taken number request batch) :
    ∃ scope joins brings, BatchMade kept scope (taken + number) joins brings batch := by
  cases request with
  | createFamily ownerUserId ownerDisplayName name => exact ⟨_,_,_,made⟩
  | listFamilies userId => exact made.elim
  | acceptInvitation now tokenHash userId email =>
    obtain ⟨s,i,-,-,-,-,made⟩ := made
    exact ⟨_,_,_,made⟩
  | «scoped» userId familyId route => exact ⟨_,_,_,made⟩

theorem recordSaved {v : Statement} {r t : Records} (wrote : applyRecord (.save v) r = some t) :
    apply v r.store = some t.store := by
  obtain ⟨next,saved,last⟩ := Option.bind_eq_some_iff.mp wrote
  cases Option.some.inj last
  exact saved

theorem recordSource {w : RecordStatement} {r t : Records} (wrote : applyRecord w r = some t) :
    t.store = r.store ∨ ∃ v, w = .save v ∧ apply v r.store = some t.store := by
  cases w with
  | audit entry =>
    cases Option.some.inj wrote
    exact .inl rfl
  | save v => exact .inr ⟨v,rfl,recordSaved wrote⟩

def Spares (familyId : FamilyId) (batch : List RecordStatement) : Prop :=
  ∀ w ∈ batch, ∀ v, w = .save v → ∃ scope, scope ≠ familyId ∧ InScope scope v

theorem madeSpares {kept : Store → Prop} {familyId other : FamilyId} {fresh : Nat} {joins : UserId → Prop}
    {brings : String → Prop} (apart : familyId ≠ other) {batch : List RecordStatement}
    (made : BatchMade kept familyId fresh joins brings batch) : Spares other batch := by
  rintro w mem v rfl
  exact ⟨familyId,apart,madeScoped (made _ mem)⟩

theorem auditSpares {familyId : FamilyId} {entry : AuditEntry} : Spares familyId [.audit entry] := by
  rintro w mem v rfl
  cases List.mem_singleton.mp mem

theorem recordSpared {familyId : FamilyId} {batch : List RecordStatement} {r t : Records} (spares : Spares familyId batch)
    (applied : applyAll applyRecord batch r = some t) :
    partOf familyId t.store.toTables = partOf familyId r.store.toTables := by
  have each (w : RecordStatement) (mem : w ∈ batch) (x y : Records)
      (same : partOf familyId x.store.toTables = partOf familyId r.store.toTables) (wrote : applyRecord w x = some y) :
      partOf familyId y.store.toTables = partOf familyId r.store.toTables := by
    rcases recordSource wrote with is | ⟨v,rfl,saved⟩
    · rwa [is]
    · obtain ⟨scope,apart,bound⟩ := spares _ mem v rfl
      exact (partSpared apart bound saved).trans same
  exact applyAllKeeps each rfl applied

end FamilyPlatform.FamilyApi
