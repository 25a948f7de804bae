import FamilyPlatform.Lib.Followed
import FamilyPlatform.Membership.Promised

/-! What becomes of an invitation while it is accepted, revoked, swept and voided at
once. An acceptance looks the invitation up before its transaction and saves that copy. -/
namespace FamilyPlatform.Membership
open Interleaving (System Steps Config Move Within Reaches Writes Follows applyAll begun begunAppend begins
  run runAppend runFollowed withinAppend writesLift writesRead withinBefore)

/- The sweep sees every family; nothing else does. -/
inductive InvitationStatement where
  | save (statement : Statement)
  | expireOverdue (now : Instant)
  deriving DecidableEq, Repr

def markOverdue (now : Instant) (t : Table Invitation Invitation.id) : Table Invitation Invitation.id :=
  t.updateWhere (·.isExpired now) (fun i => { i with status := .expired }) (fun _ => rfl)

def expireOverdue (now : Instant) (t : Tables) : Tables := { t with invitations := markOverdue now t.invitations }

theorem expiredRows {now : Instant} {t : Tables} :
    ∀ x ∈ (expireOverdue now t).invitations.rows, x ∈ t.invitations.rows ∨
      ∃ r ∈ t.invitations.rows, x = { r with status := .expired } := by
  intro x mem
  obtain ⟨r,there,rfl⟩ := List.mem_map.mp mem
  by_cases due : r.isExpired now
  · exact .inr ⟨r,there,by simp [due]⟩
  · exact .inl (by simpa [due] using there)

theorem expiredLegal {now : Instant} {t : Tables} (legal : Legal t) : Legal (expireOverdue now t) := by
  have source (x : Invitation) (mem : x ∈ (expireOverdue now t).invitations.rows) :
      ∃ r ∈ t.invitations.rows, x = { r with status := x.status } ∧ (x.status = .pending → x = r) := by
    rcases expiredRows x mem with old | ⟨r,there,rfl⟩
    · exact ⟨x,old,rfl,fun _ => rfl⟩
    · exact ⟨r,there,rfl,fun pending => by cases pending⟩
  refine ⟨legal.oneOwner,legal.onePerUser,?_,?_,legal.onePair,legal.members,?_,legal.references.1,legal.references.2.1,?_⟩
  · intro a left b right pa pb email family
    obtain ⟨r,there,-,same⟩ := source a left
    obtain ⟨u,present,-,own⟩ := source b right
    obtain rfl := same pa
    obtain rfl := own pb
    exact legal.onePending a there b present pa pb email family
  · intro a left b right hash
    obtain ⟨r,there,same,-⟩ := source a left
    obtain ⟨u,present,own,-⟩ := source b right
    rw [same,own] at hash ⊢
    exact legal.tokenHash r there u present hash
  · intro x mem
    obtain ⟨r,there,same,-⟩ := source x mem
    rw [same]
    exact legal.invitations r there
  · intro x mem
    obtain ⟨r,there,same,-⟩ := source x mem
    rw [same]
    exact legal.references.2.2 r there

def applyInvitation : InvitationStatement → Store → Option Store
  | .save w, s => apply w s
  | .expireOverdue now, s => some ⟨expireOverdue now s.toTables,expiredLegal s.legal⟩

def findInvitation (scope : FamilyId) (id : InvitationId) (s : Store) : Option Invitation :=
  (s.invitations.find id).filter (·.familyId = scope)

def listAll (scope : FamilyId) (s : Store) : List Invitation :=
  (s.invitations.rows.filter (fun i => i.familyId = scope)).reverse

def revokeInvitation (now : Instant) (familyId : FamilyId) (invitationId : InvitationId) : Script :=
  .read fun s =>
  match findInvitation familyId invitationId s with
  | none => fail .notFound
  | some invitation =>
    match invitation.revoke now with
    | .error e => fail e
    | .ok revoked => save [.saveInvitation familyId revoked] .done

/- FR-025: the pending invitations are voided in the transaction of the first request. -/
def requestFamilyDeletion (now : Instant) (familyId : FamilyId) (requestedByMemberId : FamilyMemberId) : Script :=
  .read fun s =>
  match findCurrent familyId s with
  | none => fail .notFound
  | some currentFamily =>
    let requested := .saveFamily familyId (currentFamily.requestDeletion now)
    if currentFamily.deletionRequestedAt.isSome then save [requested] .done else
    .read fun s =>
    let voided := (listAll familyId s).filterMap (fun invitation =>
      if invitation.status = .pending then (invitation.revoke now).toOption else none)
    save (requested :: voided.map (Statement.saveInvitation familyId) ++
      [.append (.familyDeletionRequested familyId requestedByMemberId)]) .done

def expireOverdueInvitations (now : Instant) : Steps Store InvitationStatement Reply :=
  .commit [.expireOverdue now] (fun _ => .returned .done)

inductive InvitationCall where
  | acceptInvitation (now : Instant) (tokenHash : String) (callerUserId : UserId) (callerEmail : EmailAddress)
  | revokeInvitation (now : Instant) (familyId : FamilyId) (invitationId : InvitationId)
  | requestFamilyDeletion (now : Instant) (familyId : FamilyId) (requestedByMemberId : FamilyMemberId)
  | expireOverdueInvitations (now : Instant)
  deriving DecidableEq, Repr

def respond (taken : Nat) : InvitationCall → Nat → Steps Store InvitationStatement Reply
  | .acceptInvitation now tokenHash callerUserId callerEmail,number =>
    (acceptInvitation now tokenHash callerUserId callerEmail (taken + number)).lift .save
  | .revokeInvitation now familyId invitationId,_ => (revokeInvitation now familyId invitationId).lift .save
  | .requestFamilyDeletion now familyId requestedBy,_ =>
    (requestFamilyDeletion now familyId requestedBy).lift .save
  | .expireOverdueInvitations now,_ => expireOverdueInvitations now

def invitations (taken : Nat) : System Store InvitationStatement InvitationCall Reply :=
  ⟨applyInvitation,respond taken⟩

/- An acceptance that commits finds the invitation pending, in a family that stays. -/
def StillOpen (batch : List InvitationStatement) (s : Store) : Prop :=
  ∀ w ∈ batch, match w with
    | .save (.saveInvitation _ i) => i.status = .accepted →
      (∃ r ∈ s.invitations.rows, r.id = i.id ∧ r.status = .pending) ∧
        ∀ f ∈ s.families.rows, f.id = i.familyId → f.deletionRequestedAt = none
    | _ => True

instance (batch s) : Decidable (StillOpen batch s) := by
  unfold StillOpen
  have each (w : InvitationStatement) : Decidable (match w with
    | .save (.saveInvitation _ i) => i.status = .accepted →
      (∃ r ∈ s.invitations.rows, r.id = i.id ∧ r.status = .pending) ∧
        ∀ f ∈ s.families.rows, f.id = i.familyId → f.deletionRequestedAt = none
    | _ => True) := by
    split <;> infer_instance
  infer_instance

structure SameInvitation (a b : Invitation) : Prop where
  id : b.id = a.id
  family : b.familyId = a.familyId
  email : b.email = a.email
  role : b.proposedRole = a.proposedRole
  token : b.tokenHash = a.tokenHash

def Descends (origin s : Store) : Prop :=
  ∀ i ∈ s.invitations.rows, ∃ o ∈ origin.invitations.rows, SameInvitation o i

structure Joins (o : Invitation) (id : FamilyMemberId) (userId : UserId) (m : FamilyMember) : Prop where
  id : m.id = id
  family : m.familyId = o.familyId
  kind : m.kind = .adult
  role : m.role = o.proposedRole
  user : m.userId = some userId

inductive Accepts (taken : Nat) (origin : Store) (number : Nat) (tokenHash : String) (userId : UserId)
    (email : EmailAddress) : List InvitationStatement → Prop where
  | joined {o accepted m e scope} (there : o ∈ origin.invitations.rows) (same : SameInvitation o accepted)
      (status : accepted.status = .accepted) (token : o.tokenHash = tokenHash) (own : o.email = email)
      (joins : Joins o (taken + number) userId m) : Accepts taken origin number tokenHash userId email
        [.save (.saveMember scope m),.save (.saveInvitation scope accepted),.save (.append e)]

def Quiet (origin : Store) : InvitationStatement → Prop
  | .save (.saveFamily _ f) => f.deletionRequestedAt.isSome
  | .save (.saveInvitation _ i) => i.status = .revoked ∧ ∃ o ∈ origin.invitations.rows, SameInvitation o i
  | .save (.append _) => True
  | .save (.saveMember _ _) | .save (.saveGuardianship _ _) => False
  | .expireOverdue _ => True

def Written (taken : Nat) (origin : Store) (number : Nat) : InvitationCall → List InvitationStatement → Prop
  | .acceptInvitation _ tokenHash userId email, batch => Accepts taken origin number tokenHash userId email batch
  | .revokeInvitation _ _ _, batch | .requestFamilyDeletion _ _ _, batch | .expireOverdueInvitations _, batch =>
    ∀ w ∈ batch, Quiet origin w

theorem acceptSource {i accepted : Invitation} {now : Instant} {m : FamilyMemberId}
    (ok : i.accept now m = .ok accepted) : SameInvitation i accepted ∧ accepted.status = .accepted := by
  simp only [Invitation.accept] at ok
  split at ok <;> try contradiction
  cases ok
  exact ⟨⟨rfl,rfl,rfl,rfl,rfl⟩,rfl⟩

theorem revokeSource {i revoked : Invitation} {now : Instant} (ok : i.revoke now = .ok revoked) :
    SameInvitation i revoked ∧ revoked.status = .revoked := by
  simp only [Invitation.revoke] at ok
  split at ok <;> try contradiction
  cases ok
  exact ⟨⟨rfl,rfl,rfl,rfl,rfl⟩,rfl⟩

theorem SameInvitation.trans {a b c : Invitation} (first : SameInvitation a b) (second : SameInvitation b c) :
    SameInvitation a c :=
  ⟨second.id.trans first.id,second.family.trans first.family,second.email.trans first.email,
    second.role.trans first.role,second.token.trans first.token⟩

theorem invitedJoins {i : Invitation} {id userId raw m}
    (created : FamilyMember.createFromInvitation id i.familyId userId i.proposedRole raw = .ok m) :
    Joins i id userId m := by
  simp only [FamilyMember.createFromInvitation] at created
  split at created <;> try contradiction
  split at created <;> try contradiction
  cases created
  exact ⟨rfl,rfl,rfl,rfl,rfl⟩

theorem SameInvitation.joins {o i : Invitation} {id : FamilyMemberId} {userId : UserId} {m : FamilyMember}
    (same : SameInvitation o i) (joins : Joins i id userId m) : Joins o id userId m :=
  ⟨joins.id,joins.family.trans same.family,joins.kind,joins.role.trans same.role,joins.user⟩

section
variable {taken number : Nat} {origin : Store} {now : Instant}

theorem acceptInvitationWrites {tokenHash : String} {userId : UserId} {email : EmailAddress} :
    Writes (Descends origin) (Accepts taken origin number tokenHash userId email)
      ((acceptInvitation now tokenHash userId email (taken + number)).lift .save) := by
  refine writesLift ?_
  unfold acceptInvitation
  refine writesRead fun s descends => ?_
  split
  · trivial
  · rename_i invitation found
    split
    · split
      · trivial
      · split <;> trivial
    · split
      · trivial
      · split
        · trivial
        · rename_i same
          split
          · trivial
          · rename_i member made
            split
            · trivial
            · rename_i accepted ok
              obtain ⟨o,there,kept⟩ := descends invitation (List.mem_of_find?_eq_some found)
              have token : invitation.tokenHash = tokenHash := by simpa using List.find?_some found
              obtain ⟨own,status⟩ := acceptSource ok
              have joins := kept.joins (invitedJoins made)
              exact ⟨.joined there (kept.trans own) status (kept.token.symm.trans token)
                (kept.email.symm.trans (not_not.mp same).symm) joins,fun _ _ => trivial⟩

theorem revokeInvitationWrites {familyId : FamilyId} {invitationId : InvitationId} :
    Writes (Descends origin) (fun batch => ∀ w ∈ batch, Quiet origin w)
      ((revokeInvitation now familyId invitationId).lift .save) := by
  refine writesLift ?_
  unfold revokeInvitation
  refine writesRead fun s descends => ?_
  split
  · trivial
  · rename_i invitation found
    split
    · trivial
    · rename_i revoked ok
      obtain ⟨row,-⟩ := Option.filter_eq_some_iff.mp found
      obtain ⟨o,there,kept⟩ := descends invitation (Table.findSource row).1
      obtain ⟨own,status⟩ := revokeSource ok
      refine ⟨?_,fun _ _ => trivial⟩
      simpa [Quiet] using ⟨status,o,there,kept.trans own⟩

theorem requestFamilyDeletionWrites {familyId : FamilyId} {requestedBy : FamilyMemberId} :
    Writes (Descends origin) (fun batch => ∀ w ∈ batch, Quiet origin w)
      ((requestFamilyDeletion now familyId requestedBy).lift .save) := by
  refine writesLift ?_
  unfold requestFamilyDeletion
  refine writesRead fun s descends => ?_
  split
  · trivial
  · rename_i family found
    have requested : (family.requestDeletion now).deletionRequestedAt.isSome := by
      unfold Family.requestDeletion
      split
      · assumption
      · rfl
    simp only
    split
    · exact ⟨by simpa [Quiet] using requested,fun _ _ => trivial⟩
    · refine writesRead fun t descends => ⟨?_,fun _ _ => trivial⟩
      intro w mem
      obtain ⟨v,written,rfl⟩ := List.mem_map.mp mem
      rcases List.mem_append.mp written with written | last
      · rcases List.mem_cons.mp written with rfl | written
        · exact requested
        · obtain ⟨revoked,voided,rfl⟩ := List.mem_map.mp written
          obtain ⟨invitation,listed,ok⟩ := List.mem_filterMap.mp voided
          split at ok
          · obtain ⟨o,there,kept⟩ := descends invitation (List.mem_filter.mp (List.mem_reverse.mp listed)).1
            cases revoked' : invitation.revoke now with
            | error e =>
              rw [revoked'] at ok
              cases ok
            | ok next =>
              rw [revoked'] at ok
              cases ok
              obtain ⟨own,status⟩ := revokeSource revoked'
              exact ⟨status,o,there,kept.trans own⟩
          · cases ok
      · rw [List.mem_singleton.mp last]
        trivial

theorem respondWrites (number : Nat) (call : InvitationCall) :
    Writes (Descends origin) (Written taken origin number call) ((invitations taken).start call number) := by
  cases call with
  | acceptInvitation => exact acceptInvitationWrites
  | revokeInvitation => exact revokeInvitationWrites
  | requestFamilyDeletion => exact requestFamilyDeletionWrites
  | expireOverdueInvitations => exact ⟨List.forall_mem_singleton.mpr trivial,fun _ _ => trivial⟩

end

def Admits (taken : Nat) (calls : List InvitationCall) (o : Invitation) (m : FamilyMember) : Prop :=
  ∃ j now userId, calls[j]? = some (.acceptInvitation now o.tokenHash userId o.email) ∧ Joins o (taken + j) userId m

def Spent (o : Invitation) (s : Store) : Prop := ∀ x ∈ s.invitations.rows, x.id = o.id → x.status ≠ .pending

structure Underway (taken : Nat) (origin : Store) (calls : List InvitationCall) (s : Store) : Prop where
  descends : Descends origin s
  members : ∀ m ∈ s.members.rows, m ∈ origin.members.rows ∨
    ∃ o ∈ origin.invitations.rows, Admits taken calls o m ∧ Spent o s
  once : ∀ o ∈ origin.invitations.rows, ∀ a ∈ s.members.rows, ∀ b ∈ s.members.rows,
    Admits taken calls o a → Admits taken calls o b → a = b

theorem invitationRows {scope : FamilyId} {i : Invitation} {s t : Store}
    (applied : apply (.saveInvitation scope i) s = some t) :
    ∀ x ∈ t.invitations.rows, (x ∈ s.invitations.rows ∧ x.id ≠ i.id) ∨ x = i := by
  have written := applySource applied
  simp only [write] at written
  split at written <;> try contradiction
  rename_i isolated
  intro x mem
  rw [← Option.some.inj written] at mem
  simp only [upsertInvitation,Table.memUpsert] at mem
  rcases mem with old | ⟨-,rfl⟩ | ⟨r,there,same,rfl⟩
  · exact .inl old
  · exact .inr rfl
  · have family : r.familyId = i.familyId := (isolated.2 r there same).trans isolated.1.symm
    exact .inr (by rw [same,family])

theorem appendedInvitations {e : Event} {s t : Store} (applied : apply (.append e) s = some t) :
    t.invitations = s.invitations := by
  have written := applySource applied
  simp only [write] at written
  rw [← Option.some.inj written]

structure Calm (origin s t : Store) : Prop where
  members : t.members = s.members
  invitations : ∀ x ∈ t.invitations.rows, x ∈ s.invitations.rows ∨
    (x.status = .revoked ∨ x.status = .expired) ∧ ∃ o ∈ origin.invitations.rows, SameInvitation o x
  families : ∀ f ∈ t.families.rows, f ∈ s.families.rows ∨ f.deletionRequestedAt.isSome

theorem Calm.trans {origin s t u : Store} (first : Calm origin s t) (second : Calm origin t u) : Calm origin s u where
  members := second.members.trans first.members
  invitations := fun x mem => (second.invitations x mem).elim (first.invitations x) .inr
  families := fun f mem => (second.families f mem).elim (first.families f) .inr

theorem Calm.descends {origin s t : Store} (calm : Calm origin s t) (descends : Descends origin s) : Descends origin t :=
  fun x mem => (calm.invitations x mem).elim (descends x) And.right

theorem Calm.spent {origin s t : Store} {o : Invitation} (calm : Calm origin s t) (spent : Spent o s) : Spent o t := by
  intro x mem same
  rcases calm.invitations x mem with old | ⟨revoked | expired,-⟩
  · exact spent x old same
  · rw [revoked]
    simp
  · rw [expired]
    simp

theorem quietCalm {origin s t : Store} {w : InvitationStatement} (descends : Descends origin s) (quiet : Quiet origin w)
    (applied : applyInvitation w s = some t) : Calm origin s t := by
  match w with
  | .expireOverdue now =>
    cases Option.some.inj applied
    refine ⟨rfl,fun x mem => ?_,fun f mem => .inl mem⟩
    rcases expiredRows x mem with old | ⟨r,there,rfl⟩
    · exact .inl old
    · obtain ⟨o,source,same⟩ := descends r there
      exact .inr ⟨.inr rfl,o,source,same.id,same.family,same.email,same.role,same.token⟩
  | .save (.saveFamily scope f) =>
    obtain ⟨rows,members,-,invitations⟩ := familySaved applied
    refine ⟨members,fun x mem => .inl (invitations ▸ mem),fun g mem => ?_⟩
    obtain ⟨old,-⟩ | rfl := (rows g).mp mem
    · exact .inl old
    · exact .inr quiet
  | .save (.saveInvitation scope i) =>
    obtain ⟨families,members,-⟩ := invitationSaved applied
    refine ⟨members,fun x mem => ?_,fun f mem => .inl (families ▸ mem)⟩
    rcases invitationRows applied x mem with ⟨old,-⟩ | rfl
    · exact .inl old
    · exact .inr ⟨.inl quiet.1,quiet.2⟩
  | .save (.append e) =>
    obtain ⟨families,members,-⟩ := appended applied
    exact ⟨members,fun x mem => .inl (appendedInvitations applied ▸ mem),fun f mem => .inl (families ▸ mem)⟩

theorem batchCalm {origin s t : Store} {batch : List InvitationStatement} (descends : Descends origin s)
    (quiet : ∀ w ∈ batch, Quiet origin w) (applied : applyAll applyInvitation batch s = some t) : Calm origin s t := by
  induction batch generalizing s with
  | nil =>
    cases Option.some.inj applied
    exact ⟨rfl,fun _ mem => .inl mem,fun _ mem => .inl mem⟩
  | cons w rest ih =>
    obtain ⟨next,head,tail⟩ := Option.bind_eq_some_iff.mp applied
    have first := quietCalm descends (quiet w List.mem_cons_self) head
    exact first.trans (ih (first.descends descends) (fun v mem => quiet v (List.mem_cons_of_mem w mem)) tail)

theorem joinedRows {scope : FamilyId} {m : FamilyMember} {accepted : Invitation} {e : Event} {s t : Store}
    (applied : applyAll applyInvitation
      [.save (.saveMember scope m),.save (.saveInvitation scope accepted),.save (.append e)] s = some t) :
    (∀ x ∈ t.members.rows, x ∈ s.members.rows ∨ x = m) ∧
      (∀ x ∈ t.invitations.rows, (x ∈ s.invitations.rows ∧ x.id ≠ accepted.id) ∨ x = accepted) ∧
      t.families = s.families := by
  obtain ⟨a,first,rest⟩ := Option.bind_eq_some_iff.mp applied
  obtain ⟨b,second,rest⟩ := Option.bind_eq_some_iff.mp rest
  obtain ⟨c,third,last⟩ := Option.bind_eq_some_iff.mp rest
  cases Option.some.inj last
  obtain ⟨rows,-,-,families,-,invitations⟩ := memberSaved first
  obtain ⟨families',members,-⟩ := invitationSaved second
  obtain ⟨families'',members',-⟩ := appended third
  refine ⟨fun x mem => ?_,fun x mem => ?_,families''.trans (families'.trans families)⟩
  · rw [members',members] at mem
    exact ((rows x).mp mem).imp And.left id
  · rw [appendedInvitations third] at mem
    exact invitations ▸ invitationRows second x mem

theorem admitsSame {taken : Nat} {calls : List InvitationCall} {origin : Store} {o p : Invitation} {m : FamilyMember}
    (there : o ∈ origin.invitations.rows) (present : p ∈ origin.invitations.rows) (first : Admits taken calls o m)
    (second : Admits taken calls p m) : o = p := by
  obtain ⟨j,now,userId,called,joins⟩ := first
  obtain ⟨k,later,other,named,same⟩ := second
  have numbers : j = k := Nat.add_left_cancel (joins.id.symm.trans same.id)
  subst numbers
  rw [called] at named
  injection named with call
  injection call with _ token
  exact Table.equalOfKey there present (origin.legal.tokenHash o there p present token)

theorem admitsBefore {taken : Nat} {origin : Store} {calls : List InvitationCall} {call : InvitationCall}
    {o : Invitation} {m : FamilyMember} {s : Store} (numbered : ∀ m ∈ origin.members.rows, m.id < taken)
    (underway : Underway taken origin calls s) (mem : m ∈ s.members.rows)
    (admits : Admits taken (calls ++ [call]) o m) : Admits taken calls o m := by
  obtain ⟨j,now,userId,called,joins⟩ := admits
  have lt : j < calls.length := by
    rcases underway.members m mem with old | ⟨p,-,⟨k,_,_,named,same⟩,-⟩
    · have below := numbered m old
      rw [joins.id] at below
      exact absurd below (Nat.not_lt.mpr (Nat.le_add_right taken j))
    · have numbers : j = k := Nat.add_left_cancel (joins.id.symm.trans same.id)
      exact numbers ▸ (List.getElem?_eq_some_iff.mp named).1
  rw [List.getElem?_append_left lt] at called
  exact ⟨j,now,userId,called,joins⟩

theorem underwayBegins {taken : Nat} {origin : Store} {calls : List InvitationCall} {s : Store}
    (numbered : ∀ m ∈ origin.members.rows, m.id < taken) (call : InvitationCall)
    (underway : Underway taken origin calls s) : Underway taken origin (calls ++ [call]) s := by
  refine ⟨underway.descends,fun m mem => ?_,fun o there a left b right first second => ?_⟩
  · refine (underway.members m mem).imp_right fun ⟨o,there,⟨j,now,userId,called,joins⟩,spent⟩ => ?_
    have lt := (List.getElem?_eq_some_iff.mp called).1
    exact ⟨o,there,⟨j,now,userId,by rw [List.getElem?_append_left lt,called],joins⟩,spent⟩
  · exact underway.once o there a left b right (admitsBefore numbered underway left first)
      (admitsBefore numbered underway right second)

theorem underwayJoined {taken number : Nat} {origin : Store} {calls : List InvitationCall} {s t : Store}
    {now : Instant} {tokenHash : String} {userId : UserId} {email : EmailAddress} {batch : List InvitationStatement}
    (numbered : ∀ m ∈ origin.members.rows, m.id < taken)
    (called : calls[number]? = some (.acceptInvitation now tokenHash userId email))
    (underway : Underway taken origin calls s) (accepts : Accepts taken origin number tokenHash userId email batch)
    (still : StillOpen batch s) (applied : applyAll applyInvitation batch s = some t) :
    Underway taken origin calls t := by
  obtain ⟨there,same,status,rfl,rfl,joins⟩ := accepts
  rename_i o accepted m e scope
  obtain ⟨members,invitations,-⟩ := joinedRows applied
  have opened := still (.save (.saveInvitation scope accepted)) (by simp)
  obtain ⟨⟨r,present,id,pending⟩,-⟩ := opened status
  have unspent : ¬ Spent o s := fun spent => spent r present (id.trans same.id) pending
  have admits : Admits taken calls o m := ⟨number,now,userId,called,joins⟩
  have spends {p : Invitation} (spent : Spent p s) : Spent p t := by
    intro x mem own
    rcases invitations x mem with ⟨old,-⟩ | rfl
    · exact spent x old own
    · rw [status]
      simp
  have alone {p : Invitation} {a b : FamilyMember} (source : p ∈ origin.invitations.rows) (left : a = m)
      (right : b ∈ s.members.rows) (first : Admits taken calls p a) (second : Admits taken calls p b) : False := by
    subst left
    have own := admitsSame source there first admits
    subst own
    rcases underway.members b right with old | ⟨q,mem,third,spent⟩
    · obtain ⟨j,_,_,_,joins⟩ := second
      have below := numbered b old
      rw [joins.id] at below
      exact absurd below (Nat.not_lt.mpr (Nat.le_add_right taken j))
    · exact unspent (admitsSame mem source third second ▸ spent)
  refine ⟨fun x mem => ?_,fun x mem => ?_,fun p source a left b right first second => ?_⟩
  · rcases invitations x mem with ⟨old,-⟩ | rfl
    · exact underway.descends x old
    · exact ⟨o,there,same⟩
  · rcases members x mem with old | rfl
    · exact (underway.members x old).imp_right (fun ⟨p,source,other,spent⟩ => ⟨p,source,other,spends spent⟩)
    · refine .inr ⟨o,there,admits,fun y present own => ?_⟩
      rcases invitations y present with ⟨-,other⟩ | rfl
      · exact absurd (own.trans same.id.symm) other
      · rw [status]
        simp
  · rcases members a left with before | new <;> rcases members b right with before' | new'
    · exact underway.once p source a before b before' first second
    · exact (alone source new' before second first).elim
    · exact (alone source new before' first second).elim
    · exact new.trans new'.symm

theorem underwayKept {taken number : Nat} {origin : Store} {calls : List InvitationCall} {s t : Store}
    {call : InvitationCall} {batch : List InvitationStatement} (numbered : ∀ m ∈ origin.members.rows, m.id < taken)
    (called : calls[number]? = some call) (underway : Underway taken origin calls s)
    (written : Written taken origin number call batch) (still : StillOpen batch s)
    (applied : applyAll applyInvitation batch s = some t) : Underway taken origin calls t := by
  have calmly (quiet : ∀ w ∈ batch, Quiet origin w) : Underway taken origin calls t := by
    have calm := batchCalm underway.descends quiet applied
    refine ⟨calm.descends underway.descends,?_,?_⟩
    · rw [calm.members]
      exact fun m mem => (underway.members m mem).imp_right
        (fun ⟨o,there,admits,spent⟩ => ⟨o,there,admits,calm.spent spent⟩)
    · rw [calm.members]
      exact underway.once
  cases call with
  | acceptInvitation now tokenHash userId email => exact underwayJoined numbered called underway written still applied
  | revokeInvitation | requestFamilyDeletion | expireOverdueInvitations => exact calmly written

/- Revoked, swept or voided: by the row of the invitation or that of its family. -/
def Closed (i : Invitation) (s : Store) : Prop :=
  i.status = .revoked ∨ i.status = .expired ∨ ∃ f ∈ s.families.rows, f.id = i.familyId ∧ f.deletionRequestedAt.isSome

instance (i s) : Decidable (Closed i s) := by unfold Closed; infer_instance

structure Refused (taken : Nat) (calls : List InvitationCall) (i : Invitation) (before s : Store) : Prop where
  members : ∀ m ∈ s.members.rows, Admits taken calls i m → m ∈ before.members.rows
  status : ∀ x ∈ s.invitations.rows, x.id = i.id → x.status = .accepted → i.status = .accepted

structure Barred (taken : Nat) (calls : List InvitationCall) (i : Invitation) (before s : Store) : Prop
    extends Refused taken calls i before s where
  shut : Spent i s ∨ ∀ f ∈ s.families.rows, f.id = i.familyId → f.deletionRequestedAt.isSome

theorem barredCalm {taken : Nat} {origin : Store} {calls : List InvitationCall} {i : Invitation} {before s t : Store}
    (calm : Calm origin s t) (barred : Barred taken calls i before s) : Barred taken calls i before t := by
  refine ⟨⟨?_,fun x mem same accepted => ?_⟩,?_⟩
  · rw [calm.members]
    exact barred.members
  · rcases calm.invitations x mem with old | ⟨revoked | expired,-⟩
    · exact barred.status x old same accepted
    · rw [revoked] at accepted
      cases accepted
    · rw [expired] at accepted
      cases accepted
  · refine barred.shut.imp calm.spent fun shut f mem same => ?_
    exact (calm.families f mem).elim (fun old => shut f old same) id

theorem barredJoined {taken number : Nat} {origin : Store} {calls : List InvitationCall} {i : Invitation}
    {before s t : Store} {now : Instant} {tokenHash : String} {userId : UserId} {email : EmailAddress}
    {batch : List InvitationStatement} (called : calls[number]? = some (.acceptInvitation now tokenHash userId email))
    (descends : Descends origin s) (known : ∃ o ∈ origin.invitations.rows, SameInvitation o i)
    (barred : Barred taken calls i before s) (accepts : Accepts taken origin number tokenHash userId email batch)
    (still : StillOpen batch s) (applied : applyAll applyInvitation batch s = some t) :
    Barred taken calls i before t := by
  obtain ⟨there,same,status,rfl,rfl,joins⟩ := accepts
  rename_i o accepted m e scope
  obtain ⟨p,source,own⟩ := known
  obtain ⟨members,invitations,families⟩ := joinedRows applied
  obtain ⟨⟨r,present,id,pending⟩,stays⟩ := still (.save (.saveInvitation scope accepted)) (by simp) status
  have other : i.id ≠ accepted.id := by
    intro one
    have row : p = o := Table.equalOfKey source there (own.id.symm.trans (one.trans same.id))
    subst row
    rcases barred.shut with spent | shut
    · exact spent r present (id.trans one.symm) pending
    · obtain ⟨q,origin',of⟩ := descends r present
      have root : q = p := Table.equalOfKey origin' source (of.id.symm.trans (id.trans same.id))
      obtain ⟨f,found⟩ := Option.isSome_iff_exists.mp (s.legal.references.2.2 r present).1
      obtain ⟨mem,home⟩ := Table.findSource found
      have family : f.id = p.familyId := home.trans (of.family.trans (by rw [root]))
      have requested := shut f mem (family.trans own.family.symm)
      rw [stays f mem (family.trans same.family.symm)] at requested
      cases requested
  refine ⟨⟨fun x mem admits => ?_,fun x mem one is => ?_⟩,?_⟩
  · rcases members x mem with old | rfl
    · exact barred.members x old admits
    · obtain ⟨j,_,_,named,joined⟩ := admits
      have numbers : number = j := Nat.add_left_cancel (joins.id.symm.trans joined.id)
      subst numbers
      rw [called] at named
      injection named with named
      injection named with _ token
      have row : o = p := Table.equalOfKey there source (origin.legal.tokenHash o there p source (token.trans own.token))
      exact absurd (own.id.trans ((congrArg Invitation.id row.symm).trans same.id.symm)) other
  · rcases invitations x mem with ⟨old,-⟩ | rfl
    · exact barred.status x old one is
    · exact absurd one.symm other
  · refine barred.shut.imp (fun spent x mem one => ?_) (fun shut => families ▸ shut)
    rcases invitations x mem with ⟨old,-⟩ | rfl
    · exact spent x old one
    · exact absurd one.symm other

structure Honoured (taken : Nat) (origin : Store) (calls : List InvitationCall) (s : Store) : Prop where
  admitted : ∀ m ∈ s.members.rows, m ∈ origin.members.rows ∨
    ∃ i ∈ origin.invitations.rows, Admits taken calls i m ∧ m.role ≠ .owner
  once : ∀ i ∈ origin.invitations.rows, ∀ a ∈ s.members.rows, ∀ b ∈ s.members.rows,
    Admits taken calls i a → Admits taken calls i b → a = b

theorem closedBars {taken : Nat} {calls : List InvitationCall} {i : Invitation} {s : Store}
    (there : i ∈ s.invitations.rows) (closed : Closed i s) : Barred taken calls i s s := by
  refine ⟨⟨fun m mem _ => mem,fun x mem one is => Table.equalOfKey mem there one ▸ is⟩,?_⟩
  rcases closed with revoked | expired | ⟨f,mem,same,requested⟩
  · refine .inl fun x present one => ?_
    rw [Table.equalOfKey present there one,revoked]
    simp
  · refine .inl fun x present one => ?_
    rw [Table.equalOfKey present there one,expired]
    simp
  · exact .inr fun g present one => Table.equalOfKey mem present (same.trans one.symm) ▸ requested

theorem barredBegins {taken : Nat} {origin : Store} {calls : List InvitationCall} {i : Invitation} {before s : Store}
    (numbered : ∀ m ∈ origin.members.rows, m.id < taken) (call : InvitationCall)
    (underway : Underway taken origin calls s) (barred : Barred taken calls i before s) :
    Barred taken (calls ++ [call]) i before s :=
  ⟨⟨fun m mem admits => barred.members m mem (admitsBefore numbered underway mem admits),barred.status⟩,barred.shut⟩

theorem barredKept {taken number : Nat} {origin : Store} {calls : List InvitationCall} {i : Invitation}
    {before s t : Store} {call : InvitationCall} {batch : List InvitationStatement}
    (called : calls[number]? = some call) (descends : Descends origin s)
    (known : ∃ o ∈ origin.invitations.rows, SameInvitation o i) (barred : Barred taken calls i before s)
    (written : Written taken origin number call batch) (still : StillOpen batch s)
    (applied : applyAll applyInvitation batch s = some t) : Barred taken calls i before t := by
  cases call with
  | acceptInvitation => exact barredJoined called descends known barred written still applied
  | revokeInvitation | requestFamilyDeletion | expireOverdueInvitations =>
    exact barredCalm (batchCalm descends written applied) barred

/-- Where every acceptance that commits finds its invitation open, an invitation lets one
caller in at most, the one it was sent to and in its role, and nobody once it is closed. -/
theorem invitationsHonoured {taken : Nat} {origin : Store} {mid last : Config Store InvitationStatement Reply}
    {before after : List (Move InvitationCall)} (numbered : ∀ m ∈ origin.members.rows, m.id < taken)
    (still : Within (invitations taken) StillOpen (begins origin) (before ++ after))
    (reached : run (invitations taken) (begins origin) before = some mid)
    (ran : run (invitations taken) mid after = some last) :
    Honoured taken origin (begun (before ++ after)) last.store ∧ ∀ i ∈ mid.store.invitations.rows,
      Closed i mid.store → Refused taken (begun (before ++ after)) i mid.store last.store := by
  have base : Underway taken origin [] origin :=
    ⟨fun i mem => ⟨i,mem,rfl,rfl,rfl,rfl,rfl⟩,fun m mem => .inl mem,fun o there a left b right ⟨j,_,_,named,_⟩ => by simp at named⟩
  have first : Follows (Descends origin) (Written taken origin) [] (begins origin : Config Store InvitationStatement Reply) :=
    ⟨rfl,fun i call l named => by simp at named⟩
  obtain ⟨follows,underway⟩ := runFollowed (Underway taken origin) respondWrites Underway.descends
    (underwayBegins numbered) (underwayKept numbered) first base (withinBefore still) reached
  have kept := runFollowed (fun calls s => Underway taken origin calls s ∧
      ∀ i ∈ mid.store.invitations.rows, Closed i mid.store → Barred taken calls i mid.store s) respondWrites
    (fun holds => holds.1.descends)
    (fun call holds => ⟨underwayBegins numbered call holds.1,
      fun i mem closed => barredBegins numbered call holds.1 (holds.2 i mem closed)⟩)
    (fun called holds written still applied => ⟨underwayKept numbered called holds.1 written still applied,
      fun i mem closed => barredKept called holds.1.descends (underway.descends i mem) (holds.2 i mem closed)
        written still applied⟩)
    follows ⟨underway,fun i mem closed => closedBars mem closed⟩ (withinAppend still reached) ran
  rw [begunAppend]
  obtain ⟨-,final,refused⟩ := kept
  refine ⟨⟨fun m mem => ?_,final.once⟩,fun i mem closed => (refused i mem closed).toRefused⟩
  refine (final.members m mem).imp_right fun ⟨o,there,admits,_⟩ => ⟨o,there,admits,?_⟩
  obtain ⟨_,_,_,_,joins⟩ := admits
  rw [joins.role]
  exact origin.legal.invitations o there

def awaitingBen : Store := (Interleaving.serial commands 0 .empty
  [.createFamily 1 "Ann" "Home",.createInvitation 0 0 0 ⟨"ben@example.org"⟩ .adult none "token"]).2

def revoked : List (Move InvitationCall) := [.begin (.revokeInvitation 1 0 1),.advance 0,.advance 0]

def tooLate : List (Move InvitationCall) :=
  [.begin (.acceptInvitation 2 "token" 2 ⟨"ben@example.org"⟩),.advance 1]

theorem benRefused : Reaches (invitations 2) (begins awaitingBen) revoked (fun mid =>
    Reaches (invitations 2) mid tooLate (fun last => Honoured 2 awaitingBen (begun (revoked ++ tooLate)) last.store ∧
      ∀ i ∈ mid.store.invitations.rows, Closed i mid.store →
        Refused 2 (begun (revoked ++ tooLate)) i mid.store last.store)) := by
  obtain ⟨mid,reached⟩ := Option.isSome_iff_exists.mp
    (by decide +kernel : (run (invitations 2) (begins awaitingBen) revoked).isSome)
  have ran : (run (invitations 2) (begins awaitingBen) (revoked ++ tooLate)).isSome := by decide +kernel
  rw [runAppend,reached] at ran
  obtain ⟨last,ran⟩ := Option.isSome_iff_exists.mp ran
  exact ⟨mid,reached,last,ran,invitationsHonoured (by decide +kernel) (by decide +kernel) reached ran⟩

/- Ben looks the invitation up, it is revoked, and he joins with the copy he has. -/
def lookedUp : List (Move InvitationCall) :=
  [.begin (.acceptInvitation 2 "token" 2 ⟨"ben@example.org"⟩),.advance 0,.begin (.revokeInvitation 1 0 1),
    .advance 1,.advance 1]

theorem benJoinsRevoked : Reaches (invitations 2) (begins awaitingBen) lookedUp (fun mid =>
    (∃ i ∈ mid.store.invitations.rows, i.status = .revoked) ∧ (∀ m ∈ mid.store.members.rows, m.id ≠ 2) ∧
    Reaches (invitations 2) mid [.advance 0] (fun last => (∃ m ∈ last.store.members.rows, m.id = 2) ∧
      ∃ i ∈ last.store.invitations.rows, i.status = .accepted)) := by
  decide +kernel

end FamilyPlatform.Membership
