import FamilyPlatform.Membership.Store

/-! What the tables hold of one family, and what the transactions of another leave of it. -/
namespace FamilyPlatform.Membership

def Event.familyId : Event → FamilyId
  | .familyCreated familyId _ _ => familyId
  | .memberAdded familyId _ _ _ _ => familyId
  | .memberRoleChanged familyId _ _ _ => familyId
  | .memberRemoved familyId _ _ => familyId
  | .guardianshipEstablished familyId _ _ => familyId
  | .familyDeletionRequested familyId _ => familyId

structure Part where
  families : List Family
  members : List FamilyMember
  guardianships : List Guardianship
  invitations : List Invitation
  outbox : List Event
  deriving DecidableEq, Repr

def partOf (familyId : FamilyId) (t : Tables) : Part where
  families := t.families.rows.filter (fun f => f.id = familyId)
  members := t.members.rows.filter (fun m => m.familyId = familyId)
  guardianships := t.guardianships.rows.filter (fun g => g.familyId = familyId)
  invitations := t.invitations.rows.filter (fun i => i.familyId = familyId)
  outbox := t.outbox.filter (fun e => e.familyId = familyId)

def InScope (familyId : FamilyId) : Statement → Prop
  | .saveFamily scope _ | .saveMember scope _ | .saveGuardianship scope _ | .saveInvitation scope _ => scope = familyId
  | .append event => event.familyId = familyId

theorem writeSpared {scope other : FamilyId} (apart : scope ≠ other) {w : Statement} {t next : Tables}
    (bound : InScope scope w) (written : write w t = some next) : partOf other next = partOf other t := by
  cases w <;> simp only [write] at written <;> simp only [InScope] at bound
  case append e =>
    rw [← Option.some.inj written]
    simp [partOf,bound,apart]
  all_goals
    subst bound
    split at written <;> try contradiction
    rename_i isolated
    rw [← Option.some.inj written]
    simp only [partOf,upsertFamily,upsertMember,upsertGuardianship,upsertInvitation,Part.mk.injEq,true_and,and_true]
    refine Table.filterUpsert _ (by simpa [isolated.1] using apart) (fun r there same => ?_)
    have own := isolated.2 r there same
    simp [own,apart]

theorem partSpared {scope other : FamilyId} (apart : scope ≠ other) {w : Statement} {s t : Store}
    (bound : InScope scope w) (applied : apply w s = some t) : partOf other t.toTables = partOf other s.toTables :=
  writeSpared apart bound (applySource applied)

section
variable {familyId : FamilyId} {s t : Store} (same : partOf familyId t.toTables = partOf familyId s.toTables)
include same

theorem samePartCurrent : findCurrent familyId t = findCurrent familyId s := by
  have rows := congrArg (List.head? ∘ Part.families) same
  simpa [findCurrent,Table.find,partOf,← List.head?_filter] using rows

theorem samePartStanding {userId : UserId} : findStandingByUserId familyId userId t = findStandingByUserId familyId userId s := by
  have rows := congrArg (fun p : Part => p.members.find? (fun m => m.userId = some userId && m.isActive)) same
  simpa [findStandingByUserId,partOf,Bool.and_assoc] using rows

theorem samePartMember {id : FamilyMemberId} : findById familyId id t = findById familyId id s := by
  have rows := congrArg (fun p : Part => p.members.find? (fun m => m.id = id)) same
  unfold findById
  rw [Table.findFilter,Table.findFilter]
  exact rows

theorem samePartActive : listActive familyId t = listActive familyId s := by
  have rows := congrArg (fun p : Part => p.members.filter (·.isActive)) same
  simpa [listActive,partOf,Bool.and_comm] using rows

theorem samePartCovered {child : FamilyMemberId} : countActiveForChild familyId child t = countActiveForChild familyId child s := by
  have rows := congrArg (fun p : Part => (p.guardianships.filter (fun g => g.childMemberId = child && g.isActive)).length) same
  simpa [countActiveForChild,partOf,Bool.and_comm,Bool.and_assoc,Bool.and_left_comm] using rows

theorem samePartGuardianship {guardian child : FamilyMemberId} :
    findActive familyId guardian child t = findActive familyId guardian child s := by
  have rows := congrArg (fun p : Part => p.guardianships.find? (fun g => g.guardianMemberId = guardian &&
    g.childMemberId = child && g.isActive)) same
  simpa [findActive,partOf,Bool.and_assoc] using rows

theorem samePartGuarded {guardian : FamilyMemberId} :
    listActiveChildIdsGuardedBy familyId guardian t = listActiveChildIdsGuardedBy familyId guardian s := by
  have rows := congrArg (fun p : Part => (p.guardianships.filter (fun g => g.guardianMemberId = guardian && g.isActive)).map
    (·.childMemberId)) same
  simpa [listActiveChildIdsGuardedBy,partOf,Bool.and_comm,Bool.and_assoc,Bool.and_left_comm] using rows

theorem samePartPending {email : EmailAddress} : findPendingByEmail familyId email t = findPendingByEmail familyId email s := by
  have rows := congrArg (fun p : Part => p.invitations.find? (fun i => i.email = email && i.status = .pending)) same
  simpa [findPendingByEmail,partOf,Bool.and_assoc] using rows

end
end FamilyPlatform.Membership
