import Mathlib.Data.List.Induction
import FamilyPlatform.Api.FamilyAccess

/-! A family whose deletion has been requested. Its members have lost their standing and its
invitations are void, so that nothing that is asked of it later changes it. -/
namespace FamilyPlatform.FamilyApi
open Interleaving (Move Reaches Gated aloneBind applyAll applyAllCons alone applyAllAppend begins begun run
  runAppend gatedGate gatedNone clearedGate answeredCleared)
open FamilyPlatform.Membership

theorem opensGated {taken number : Nat} {userId : UserId} {familyId : FamilyId} {route : Route} :
    Gated (Spares familyId) (· = notFound .family)
      ((familyApi taken).start (.scoped userId familyId route) number) (.all [Open familyId]) := by
  simp only [familyApi,respond,familyMembershipGuardReads]
  refine gatedGate (fun r shut => ?_) (fun r _ => gatedNone _)
  rw [if_neg (fun stays => shut (openAny.mp stays))]
  exact ⟨.inr auditSpares,fun _ => .inl (.inr rfl)⟩

theorem samePartOpen {familyId : FamilyId} {r t : Records}
    (same : partOf familyId t.store.toTables = partOf familyId r.store.toTables) : Open familyId t ↔ Open familyId r := by
  unfold Open
  rw [samePartCurrent same]

def Void (familyId : FamilyId) (s : Store) : Prop :=
  ∀ i ∈ s.invitations.rows, i.familyId = familyId → i.status ≠ .pending

theorem samePartVoid {familyId : FamilyId} {s t : Store} (same : partOf familyId t.toTables = partOf familyId s.toTables)
    (void : Void familyId s) : Void familyId t := by
  intro i there own
  have mem : i ∈ (partOf familyId t.toTables).invitations := List.mem_filter.mpr ⟨there,by simpa using own⟩
  rw [same] at mem
  exact void i (List.mem_filter.mp mem).1 own

section
variable {taken : Nat} {s : Records} {familyId : FamilyId} {c : Interleaving.Config Records RecordStatement Answer}

theorem closedStays (closed : ¬ Open familyId s) (void : Void familyId s.store) (old : familyId < taken)
    {moves : List (Move Request)} (ran : run (familyApi taken) (begins s) moves = some c) :
    partOf familyId c.store.store.toTables = partOf familyId s.store.toTables := by
  -- every store that the run came through counts: a gate may have been open in any of them
  have all : ∀ (moves first : List (Move Request)) mid, first <+: moves →
      run (familyApi taken) (begins s) first = some mid →
      partOf familyId mid.store.store.toTables = partOf familyId s.store.toTables := by
    intro moves
    induction moves using List.reverseRecOn with
    | nil =>
      rintro first mid begins ran
      cases List.prefix_nil.mp begins
      cases Option.some.inj ran
      rfl
    | append_singleton moves m ih =>
      intro first mid before ran
      rcases List.prefix_concat_iff.mp before with rfl | earlier
      · rw [runAppend] at ran
        obtain ⟨c,reached,last⟩ := Option.bind_eq_some_iff.mp ran
        obtain ⟨next,moved,last⟩ := Option.bind_eq_some_iff.mp last
        cases Option.some.inj last
        have before := ih moves c (List.prefix_refl _) reached
        by_contra changed
        obtain ⟨i,request,-,-,right⟩ := changesAuthorised reached moved (fun same => changed (same.trans before))
        cases right with
        | founder own => exact Nat.not_lt.mpr (Nat.le_add_right taken i) (own ▸ old)
        | invited cleared =>
          obtain ⟨first,mid,within,met,i,found,own,live,-⟩ := clearedGate List.mem_cons_self cleared
          have pending : i.status = .pending := by
            simp only [Invitation.isAcceptable,Bool.and_eq_true,decide_eq_true_eq] at live
            exact live.1
          exact samePartVoid (ih first mid within met) void i (List.mem_of_find?_eq_some found) own pending
        | member cleared =>
          obtain ⟨first,mid,within,met,open_⟩ := clearedGate List.mem_cons_self cleared
          exact closed ((samePartOpen (ih first mid within met)).mp open_)
      · exact ih first mid earlier ran
  exact all moves moves c (List.prefix_refl _) ran

theorem closedRefuses (closed : ¬ Open familyId s) (void : Void familyId s.store) (old : familyId < taken)
    {moves : List (Move Request)} (ran : run (familyApi taken) (begins s) moves = some c) {i : Nat} {userId : UserId}
    {route : Route} {a : Answer} (named : (begun moves)[i]? = some (.scoped userId familyId route))
    (answered : c.replies[i]? = some (some a)) : a = notFound .family := by
  by_contra granted
  obtain ⟨first,mid,-,met,open_⟩ := clearedGate List.mem_cons_self (answeredCleared opensGated ran named answered granted)
  exact closed ((samePartOpen (closedStays closed void old met)).mp open_)

end

theorem voidedRows {familyId : FamilyId} {voided : List Invitation} {s t : Store}
    (revoked : ∀ v ∈ voided, v.status ≠ .pending)
    (applied : applyAll apply (voided.map (Statement.saveInvitation familyId)) s = some t) :
    t.families = s.families ∧ ∀ x ∈ t.invitations.rows,
      (x ∈ s.invitations.rows ∧ ∀ v ∈ voided, v.id ≠ x.id) ∨ x.status ≠ .pending := by
  induction voided generalizing s with
  | nil =>
    cases Option.some.inj applied
    exact ⟨rfl,fun x mem => .inl ⟨mem,fun v none => absurd none List.not_mem_nil⟩⟩
  | cons v rest ih =>
    obtain ⟨next,saved,later⟩ := applyAllCons applied
    obtain ⟨families,rows⟩ := ih (fun w mem => revoked w (List.mem_cons_of_mem v mem)) later
    refine ⟨families.trans (invitationSaved saved).1,fun x mem => ?_⟩
    rcases rows x mem with ⟨there,others⟩ | done
    · rcases invitationRows saved x there with ⟨old,apart⟩ | rfl
      · refine .inl ⟨old,fun w listed => ?_⟩
        rcases List.mem_cons.mp listed with rfl | listed
        · exact Ne.symm apart
        · exact others w listed
      · exact .inr (revoked x List.mem_cons_self)
    · exact .inr done

theorem revokedNow {now : Instant} {invitations : List Invitation} {v : Invitation}
    (mem : v ∈ invitations.filterMap (fun invitation =>
      if invitation.status = .pending then (invitation.revoke now).toOption else none)) : v.status ≠ .pending := by
  obtain ⟨i,-,ok⟩ := List.mem_filterMap.mp mem
  split at ok
  · rename_i pending
    simp only [Invitation.revoke,pending,ne_eq,not_true,if_false,Except.toOption,Option.some.injEq] at ok
    rw [← ok]
    simp
  · cases ok

theorem requestFamilyDeletionCloses {now : Instant} {familyId : FamilyId} {requestedBy : FamilyMemberId} {s t : Store}
    {reply : Reply} (open_ : ∀ f, findCurrent familyId s = some f → f.deletionRequestedAt = none)
    (ran : alone apply (requestFamilyDeletion now familyId requestedBy) s = (some reply, t))
    (done : reply ≠ .failed .notFound) :
    (∀ f, findCurrent familyId t = some f → f.deletionRequestedAt ≠ none) ∧ Void familyId t := by
  unfold requestFamilyDeletion at ran
  simp only [alone] at ran
  cases found : findCurrent familyId s with
  | none =>
    rw [found] at ran
    exact absurd (Option.some.inj (Prod.mk.inj ran).1).symm done
  | some family =>
    have fresh := open_ family found
    simp only [found,fresh,Option.isSome_none,Bool.false_eq_true,if_false,alone,save] at ran
    split at ran
    · rename_i committed applied
      obtain rfl := (Prod.mk.inj ran).2
      rw [applyAllAppend] at applied
      obtain ⟨mid,applied,last⟩ := Option.bind_eq_some_iff.mp applied
      obtain ⟨first,saved,voided⟩ := applyAllCons applied
      obtain ⟨families,-,-,invitations⟩ := familySaved saved
      obtain ⟨kept,rows⟩ := voidedRows (fun _ => revokedNow) voided
      have told := appendedInvitations (by simpa using last : apply (.append _) mid = some committed)
      have same : committed.families = mid.families := (appended (by simpa using last : apply (.append _) mid = some committed)).1
      refine ⟨fun f current => ?_,fun x there own pending => ?_⟩
      · have row := (Table.findSource current).1
        rw [same,kept] at row
        rcases (families f).mp row with ⟨-,apart⟩ | rfl
        · have id : family.id = familyId := (Table.findSource found).2
          simp only [Family.requestDeletion,fresh,Option.isSome_none,Bool.false_eq_true,if_false] at apart
          exact absurd ((Table.findSource current).2.trans id.symm) apart
        · simp [Family.requestDeletion,fresh]
      · rw [told] at there
        rcases rows x there with ⟨old,others⟩ | done
        · rw [invitations] at old
          have listed : x ∈ listAll familyId s := List.mem_reverse.mpr (List.mem_filter.mpr ⟨old,by simpa using own⟩)
          refine others { x with status := .revoked, revokedAt := some now } ?_ rfl
          exact List.mem_filterMap.mpr ⟨x,listed,by simp [pending,Invitation.revoke,Except.toOption]⟩
        · exact done pending
    · cases ran

theorem deletionCloses {taken number : Nat} {userId : UserId} {familyId : FamilyId} {now : Instant} {s t : Records} {a : Answer}
    (ran : alone applyRecord ((familyApi taken).start (.scoped userId familyId (.requestFamilyDeletion now)) number) s =
      (some a, t)) (accepted : a.status = 202) : ¬ Open familyId t ∧ Void familyId t.store := by
  simp only [familyApi,respond,familyMembershipGuardReads] at ran
  rw [alone] at ran
  have refused {entry : AuditEntry} {b : Answer} (other : b.status ≠ 202)
      (ends : alone applyRecord (.commit [.audit entry] fun _ => .returned b) s = (some a, t)) : False := by
    cases Option.some.inj (Prod.mk.inj ends).1
    exact other accepted
  split at ran
  · rename_i stays
    rw [alone] at ran
    cases standing : findStandingByUserId familyId userId s.store with
    | none =>
      rw [standing] at ran
      exact (refused (by decide) ran).elim
    | some m =>
      simp only [standing,Option.elim_some,capabilityGuard] at ran
      split at ran
      · simp only [handler,aloneBind,aloneInRecords] at ran
        obtain ⟨f,found,fresh⟩ := openAny.mp stays
        cases ended : (alone apply (requestFamilyDeletion now familyId m.id) s.store).1 with
        | none =>
          simp only [ended] at ran
          cases ran
        | some reply =>
          simp only [ended,alone,Prod.mk.injEq,Option.some.injEq] at ran
          obtain ⟨rfl,rfl⟩ := ran
          have done : reply ≠ .failed .notFound := by
            rintro rfl
            simp [Route.answer,Route.problem,notFound] at accepted
          have closes := requestFamilyDeletionCloses (fun g current => by cases found.symm.trans current; exact fresh)
            (Prod.ext ended rfl) done
          refine ⟨?_,closes.2⟩
          rintro ⟨g,current,is⟩
          exact closes.1 g current is
      · exact (refused (by simp [capabilityRequired]) ran).elim
  · exact (refused (by decide) ran).elim

/-- Once a request for deletion has been granted while nothing else was under way, nothing that
is asked later changes the family, in whatever order the steps are taken, and whatever is
asked of it is answered as if it did not exist. -/
theorem deletionFinal {taken later number : Nat} {userId : UserId} {familyId : FamilyId} {now : Instant} {s t : Records}
    {a : Answer} {moves : List (Move Request)} {c : Interleaving.Config Records RecordStatement Answer}
    (requested : alone applyRecord ((familyApi taken).start (.scoped userId familyId (.requestFamilyDeletion now)) number) s =
      (some a,t)) (accepted : a.status = 202) (old : familyId < later)
    (ran : run (familyApi later) (begins t) moves = some c) :
    partOf familyId c.store.store.toTables = partOf familyId t.store.toTables ∧
      ∀ (i : Nat) (caller : UserId) (route : Route) (b : Answer),
        (begun moves)[i]? = some (.scoped caller familyId route) → c.replies[i]? = some (some b) → b = notFound .family := by
  obtain ⟨closed,void⟩ := deletionCloses requested accepted
  exact ⟨closedStays closed void old ran,fun i caller route b named answered => closedRefuses closed void old ran named answered⟩

def annLeaves : Option Answer × Records :=
  alone applyRecord ((familyApi 2).start (.scoped 1 0 (.requestFamilyDeletion 5)) 0) ⟨awaitingBen,[]⟩

def afterwards : List (Move Request) :=
  [.begin (.acceptInvitation 6 "token" 2 ⟨"ben@example.org"⟩),.begin (.scoped 1 0 .listMembers),
    .advance 1,.advance 0,.advance 1]

theorem annLeft : Reaches (familyApi 3) (begins annLeaves.2) afterwards (fun c =>
    partOf 0 c.store.store.toTables = partOf 0 annLeaves.2.store.toTables ∧ c.replies[1]? = some (some (notFound .family))) := by
  obtain ⟨c,ran⟩ := Option.isSome_iff_exists.mp
    (by decide +kernel : (run (familyApi 3) (begins annLeaves.2) afterwards).isSome)
  have requested : annLeaves = (some ⟨202,.result .done⟩,annLeaves.2) := Prod.ext (by decide +kernel) rfl
  have final := deletionFinal requested rfl (by decide) ran
  have answered : ∃ b, c.replies[1]? = some (some b) := by
    have said : ((run (familyApi 3) (begins annLeaves.2) afterwards).bind (·.replies[1]?)).bind id = some (notFound .family) := by
      decide +kernel
    rw [ran] at said
    obtain ⟨b,is,same⟩ := Option.bind_eq_some_iff.mp said
    exact ⟨_,is.trans (congrArg some same)⟩
  obtain ⟨b,answered⟩ := answered
  exact ⟨c,ran,final.1,by rw [answered,final.2 1 1 .listMembers b rfl answered]⟩

end FamilyPlatform.FamilyApi
