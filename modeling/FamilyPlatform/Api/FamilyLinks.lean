import FamilyPlatform.Api.FamilyStrangers
import FamilyPlatform.Membership.Links

/-! No row ever names a member of another family, although no constraint of the schema says so. -/
namespace FamilyPlatform.FamilyApi
open Interleaving (Move Reaches applyAll applyAllAppend applyAllCons applyAllKeeps begins run runFollowed withinLasting)
open FamilyPlatform.Membership

theorem recordLasts {w : RecordStatement} {r t : Records} (wrote : applyRecord w r = some t) : Lasts r.store t.store := by
  rcases recordSource wrote with same | ⟨v,-,saved⟩
  · rw [same]
    exact fun _ _ is => is
  · exact statementLasts saved

theorem batchLasts {batch : List RecordStatement} {r t : Records} (applied : applyAll applyRecord batch r = some t) :
    Lasts r.store t.store := by
  have each (w : RecordStatement) (_ : w ∈ batch) (x y : Records) (before : Lasts r.store x.store)
      (wrote : applyRecord w x = some y) : Lasts r.store y.store :=
    fun familyId id is => recordLasts wrote familyId id (before familyId id is)
  exact applyAllKeeps each (fun _ _ is => is) applied

theorem enrolledThere {scope : FamilyId} {batch : List RecordStatement} {r t : Records} {id : FamilyMemberId}
    (enrols : Enrols scope batch id) (applied : applyAll applyRecord batch r = some t) : MemberOf t.store scope id := by
  obtain ⟨m,mem,rfl⟩ := enrols
  obtain ⟨before,after,rfl⟩ := List.append_of_mem mem
  rw [applyAllAppend] at applied
  obtain ⟨mid,-,applied⟩ := Option.bind_eq_some_iff.mp applied
  obtain ⟨next,saved,later⟩ := applyAllCons applied
  have row := memberSaved (recordSaved saved)
  exact batchLasts later _ _ ⟨m,(row.1 m).mpr (.inr rfl),rfl,row.2.1⟩

/-- In every store that a run reaches, each guardianship and each invitation names members of
its own family. -/
theorem linksStay {taken : Nat} {s : Records} {moves : List (Move Request)}
    {c : Interleaving.Config Records RecordStatement Answer} (linked : Linked (MemberOf s.store) s.store)
    (ran : run (familyApi taken) (begins s) moves = some c) : Linked (MemberOf c.store.store) c.store.store := by
  -- each store is judged by the members of the last: what a batch enrols is there only once it has committed
  let kept (u : Store) : Prop := Linked (MemberOf c.store.store) u ∧ Lasts u c.store.store
  obtain ⟨lasts,within⟩ := @withinLasting _ _ _ _ (familyApi taken) (fun r t => Lasts r.store t.store)
    (fun _ _ _ is => is) (fun before after familyId id is => after familyId id (before familyId id is)) recordLasts _ _ _ ran
  refine (runFollowed (fun _ (r : Records) => kept r.store) (fun i call => @requestMade kept taken i call) id (fun _ is => is) ?_
    (nothingBegun s) ⟨linked.mono lasts,lasts⟩ within ran).2.1
  intro calls r t i call batch named is made allowed applied
  have later := allowed t applied
  obtain ⟨scope,joins,brings,made⟩ := requestBound made
  refine ⟨?_,later⟩
  have each (w : RecordStatement) (mem : w ∈ batch) (x y : Records) (is : Linked (MemberOf c.store.store) x.store)
      (wrote : applyRecord w x = some y) : Linked (MemberOf c.store.store) y.store := by
    rcases recordSource wrote with same | ⟨v,rfl,saved⟩
    · exact same ▸ is
    · exact linkedSaved (fun u held => ⟨held.1,fun id => held.2 scope id⟩)
        (fun id enrols => later scope id (enrolledThere enrols applied)) (made _ mem) is saved
  exact applyAllKeeps each is.1 applied

def annAdds : List (Move Request) := [.begin (.scoped 1 0 (.addMember .child "Cid" none)),
  .begin (.acceptInvitation 1 "token" 2 ⟨"ben@example.org"⟩),.advance 1,.advance 0,.advance 0,.advance 0,.advance 1,.advance 0]

theorem annLinked : Reaches (familyApi 2) (begins ⟨awaitingBen,[]⟩) annAdds (fun c =>
    c.store.store.guardianships.rows.length = 1 ∧ Linked (MemberOf c.store.store) c.store.store) := by
  obtain ⟨c,ran⟩ := Option.isSome_iff_exists.mp
    (by decide +kernel : (run (familyApi 2) (begins ⟨awaitingBen,[]⟩) annAdds).isSome)
  have linked : Linked (MemberOf awaitingBen) awaitingBen := by
    refine ⟨?_,?_⟩ <;> unfold MemberOf <;> decide +kernel
  have count : (run (familyApi 2) (begins ⟨awaitingBen,[]⟩) annAdds).map
        (fun c => c.store.store.guardianships.rows.length) = some 1 := by
    decide +kernel
  rw [ran] at count
  exact ⟨c,ran,Option.some.inj count,linksStay linked ran⟩

end FamilyPlatform.FamilyApi
