import FamilyPlatform.Api.HandledOnce
import FamilyPlatform.Api.TaskAnswers

/-! The mutating task routes behind the wrapper, while the family changes. A stored
response is read back without a look at whom the member may still see. -/
namespace FamilyPlatform.TaskApi
open Idempotency (Uuid Response Entry scope Recorded Promise Succeeded handledCases savedSource
  recordedKept promiseHandled scopedKeyInjective)
open Interleaving (Steps System Discipline Holds applyAll applyAllOne Config Move run begins Reaches runSound
  holdsRead)
open Tasks (FamilyId FamilyMemberId Command)
open ZonedTime

abbrev Request := Idempotency.Request Resolved
abbrev Store := Idempotency.Store Resolved Body Household

inductive Statement where
  | route (w : Idempotency.Statement Resolved Body)
  | family (w : Membership.Statement)

structure Answer where
  call : TaskCall
  visible : List FamilyMemberId
  response : Response Body
  replayed : Bool
  deriving DecidableEq

inductive Outcome where
  | answered (a : Answer)
  | changed
  deriving DecidableEq

inductive Call where
  | task (call : TaskCall)
  | family (w : Membership.Statement)
  deriving DecidableEq

abbrev Script := Steps Store Statement Outcome

section
variable (uuid : FamilyId → Uuid) (sha256 : String → String) (intl : Intl)

def apply : Statement → Store → Option Store
  | .route w, s => Idempotency.apply (handle intl) w s
  | .family w, s => do
    let family ← Membership.apply w s.app.family
    some { s with app := { s.app with family := family } }

def request (r : Resolved) : Request :=
  ⟨r.call.userId,r.call.header,uuid r.call.familyId,routeName r.call.command,r.call.shape,r⟩

def resolve (call : TaskCall) (s : Store) : Resolved :=
  ⟨call,resolveVisibleMemberIds call.memberId call.familyId s.app.family⟩

def answer (r : Resolved) (replayed : Bool) (response : Response Body) : Script :=
  .returned (.answered ⟨r.call,r.visible,response,replayed⟩)

def handled (r : Resolved) (n : Nat) (next : Response Body → Script) : Script :=
  .commit [.route (.handle n (request uuid r))] fun s =>
  match handle intl r n s.app with
  | none => .thrown
  | some (_, response) => next response

def stored (r : Resolved) (userId : Idempotency.UserId) (key : String) (response : Response Body) : Script :=
  if response.isSuccess then
    .commit [.route (.save (Idempotency.entry sha256 (request uuid r) userId key response))] fun _ => answer r false response
  else answer r false response

def route (call : TaskCall) (n : Nat) : Script :=
  match scope (request uuid ⟨call,[]⟩) with
  | none => .read fun s => handled uuid intl (resolve call s) n (answer (resolve call s) false)
  | some (userId, key) => .read fun s =>
    match s.entries.find (userId, key) with
    | some existing => answer (resolve call s) true existing.response
    | none => .read fun s => handled uuid intl (resolve call s) n (stored uuid sha256 (resolve call s) userId key)

def start : Call → Nat → Script
  | .task call,n => route uuid sha256 intl call n
  | .family w,_ => .commit [.family w] fun _ => .returned .changed

def routes : System Store Statement Call Outcome := ⟨apply intl,start uuid sha256 intl⟩

end

variable {uuid : FamilyId → Uuid} {sha256 : String → String} {intl : Intl}

/- Every success on record shows whom its member might see then, or what it assigned. -/
structure Recalled (uuid : FamilyId → Uuid) (s : Store) : Prop where
  recorded : Recorded s
  shown : ∀ h ∈ s.handled, h.1 = request uuid h.1.payload ∧
    ((∀ params, h.1.payload.call.command ≠ .createTask params) → Shown h.1.payload h.2)

inductive Promised (uuid : FamilyId → Uuid) (s : Store) : List Statement → Prop where
  | handle (n : Nat) (r : Resolved) : Promised uuid s [.route (.handle n (request uuid r))]
  | save {e : Entry Body} (succeeded : Succeeded s (e.userId, e.key) e.response) : Promised uuid s [.route (.save e)]
  | family (w : Membership.Statement) : Promised uuid s [.family w]

def Justified (uuid : FamilyId → Uuid) (outcome : Outcome) (s : Store) : Prop :=
  ∀ a, outcome = .answered a → (∀ params, a.call.command ≠ .createTask params) →
    if a.replayed then ∃ k, scope (request uuid ⟨a.call,a.visible⟩) = some k ∧ Succeeded s k a.response
    else Shown ⟨a.call,a.visible⟩ a.response

section
variable {batch : List Statement} {s t : Store}

theorem promisedCases (promised : Promised uuid s batch) (applied : applyAll (apply intl) batch s = some t) :
    (∃ w, Promise s [w] ∧ applyAll (Idempotency.apply (handle intl)) [w] s = some t ∧
      ∀ n r, w = .handle n r → ∃ resolved, r = request uuid resolved) ∨
    (t.entries = s.entries ∧ t.handled = s.handled ∧ t.awaiting = s.awaiting) := by
  cases promised with
  | handle n r =>
    rw [applyAllOne] at applied
    refine .inl ⟨_,.handle n (request uuid r),(applyAllOne _ _ _).trans applied,?_⟩
    rintro _ _ same
    cases same
    exact ⟨r,rfl⟩
  | save succeeded =>
    rw [applyAllOne] at applied
    exact .inl ⟨_,.save succeeded,(applyAllOne _ _ _).trans applied,fun _ _ same => by cases same⟩
  | family w =>
    rw [applyAllOne] at applied
    obtain ⟨family,-,last⟩ := Option.bind_eq_some_iff.mp applied
    rw [← Option.some.inj last]
    exact .inr ⟨rfl,rfl,rfl⟩

theorem promisedHandled (promised : Promised uuid s batch) (applied : applyAll (apply intl) batch s = some t) :
    ∀ h ∈ s.handled, h ∈ t.handled := by
  obtain ⟨w,promise,step,-⟩ | ⟨-,same,-⟩ := promisedCases promised applied
  · exact promiseHandled promise step
  · exact fun h mem => same ▸ mem

theorem recalledKept (recalled : Recalled uuid s) (promised : Promised uuid s batch)
    (applied : applyAll (apply intl) batch s = some t) : Recalled uuid t := by
  obtain ⟨w,promise,step,own⟩ | ⟨entries,handled,awaiting⟩ := promisedCases promised applied
  · refine ⟨recordedKept recalled.recorded promise step,?_⟩
    intro h mem
    cases promise with
    | save =>
      rw [applyAllOne] at step
      rw [(savedSource step).2.1] at mem
      exact recalled.shown h mem
    | handle n r =>
      rw [applyAllOne] at step
      obtain ⟨app,response,outcome,⟨-,more,-⟩ | ⟨-,same,-⟩⟩ := handledCases step
      · rw [more] at mem
        rcases List.mem_append.mp mem with old | new
        · exact recalled.shown h old
        · obtain rfl := List.mem_singleton.mp new
          obtain ⟨resolved,rfl⟩ := own n r rfl
          exact ⟨rfl,fun existing => handleShown existing outcome⟩
      · rw [same] at mem
        exact recalled.shown h mem
  · refine ⟨⟨?_,?_⟩,?_⟩
    · intro e mem
      obtain ⟨h,there,same⟩ := recalled.recorded.stored e (entries ▸ mem)
      exact ⟨h,handled ▸ there,same⟩
    · intro h mem
      rw [entries,awaiting]
      exact recalled.recorded.kept h (handled ▸ mem)
    · intro h mem
      exact recalled.shown h (handled ▸ mem)

end

variable (uuid intl) in
def discipline : Discipline (apply intl) Outcome where
  good := fun _ => Recalled uuid
  rely := fun _ s t => ∀ h ∈ s.handled, h ∈ t.handled
  promise := fun _ batch s => Promised uuid s batch
  answer := fun _ => Justified uuid
  issue := id
  refl := fun _ _ _ mem => mem
  trans := fun first second h mem => second h (first h mem)
  stays := fun {_ _ s t} justified later a is existing => by
    have before := justified a is existing
    split at before
    · obtain ⟨k,own,succeeded⟩ := before
      rename_i replayed
      rw [if_pos replayed]
      exact ⟨k,own,succeeded.later later⟩
    · rename_i fresh
      rwa [if_neg fresh]
  keeps := fun _ recalled promised applied =>
    ⟨recalledKept recalled promised applied,fun _ _ => promisedHandled promised applied⟩

section
variable {r : Resolved} {i : Nat} {s : Store}

theorem answerHolds {response : Response Body}
    (shown : (∀ params, r.call.command ≠ .createTask params) → Shown r response) :
    Holds (discipline uuid intl) i (answer r false response) s := by
  intro a is existing
  cases is
  exact shown existing

theorem handledHolds {next : Response Body → Script}
    (after : ∀ t response, ((∀ params, r.call.command ≠ .createTask params) → Shown r response) →
      (response.isSuccess → ∀ k ∈ scope (request uuid r), Succeeded t k response) →
      Holds (discipline uuid intl) i (next response) t) :
    Holds (discipline uuid intl) i (handled uuid intl r i next) s := by
  intro n t _ _ _
  refine ⟨.handle i r,?_⟩
  intro u applied
  rw [applyAllOne] at applied
  obtain ⟨app,response,outcome,cases_⟩ := handledCases applied
  have computed : handle intl r i t.app = some (app, response) := outcome
  simp only [computed]
  refine after u response (fun existing => handleShown existing computed) ?_
  intro success k own
  obtain ⟨-,more,-⟩ | ⟨refused,-⟩ := cases_
  · exact ⟨(request uuid r, response),more ▸ List.mem_append_right _ (List.mem_singleton_self _),own,rfl⟩
  · rw [refused] at success
    cases success

theorem storedHolds {userId : Idempotency.UserId} {key : String} {response : Response Body}
    (own : scope (request uuid r) = some (userId, key))
    (shown : (∀ params, r.call.command ≠ .createTask params) → Shown r response)
    (succeeded : response.isSuccess → ∀ k ∈ scope (request uuid r), Succeeded s k response) :
    Holds (discipline uuid intl) i (stored uuid sha256 r userId key response) s := by
  unfold stored
  split
  · rename_i success
    intro n t _ _ later
    have kept : Succeeded t (userId, key) response := (succeeded success _ own).later later
    exact ⟨.save kept,fun u _ => answerHolds shown⟩
  · exact answerHolds shown

theorem startHolds (i : Nat) (s : Store) (call : Call) (_ : (discipline uuid intl).good i s) :
    Holds (discipline uuid intl) i ((routes uuid sha256 intl).start call i) s := by
  cases call with
  | family w =>
    intro n t _ _ _
    exact ⟨.family w,fun _ _ a is => by cases is⟩
  | task call =>
    change Holds (discipline uuid intl) i (route uuid sha256 intl call i) s
    unfold route
    split
    · refine holdsRead fun n t _ _ _ => ?_
      exact handledHolds fun u response shown _ => answerHolds shown
    · rename_i userId key own
      refine holdsRead fun n t _ recalled _ => ?_
      split
      · rename_i existing found
        obtain ⟨mem,same⟩ := Table.findSource found
        intro a is _
        cases is
        exact ⟨(userId, key),own,same ▸ recalled.recorded.stored existing mem⟩
      · refine holdsRead fun n u _ _ _ => ?_
        exact handledHolds fun v response shown succeeded => storedHolds own shown succeeded

end

def Clean (a : Answer) : Prop := ∀ m ∈ a.response.body.assignees, m ∈ a.visible

/- Someone assigned in the tasks that an earlier request of the key was answered with,
whom its member saw then or whom it assigned, and who is out of sight now. -/
def Lost (uuid : FamilyId → Uuid) (s : Store) (a : Answer) (m : FamilyMemberId) : Prop :=
  ∃ h ∈ s.handled, scope h.1 = scope (request uuid ⟨a.call,a.visible⟩) ∧ h.2 = a.response ∧
    m ∈ h.2.body.assignees ∧ (m ∈ h.1.payload.visible ∨ ∃ id, h.1.payload.call.command = .assignTask id m) ∧
    m ∉ a.visible

theorem routeNamePlain (command : Command) : ':' ∉ (routeName command).toList := by
  cases command <;> simp only [routeName] <;> decide

theorem sameRoute {r q : Resolved} {k : Idempotency.UserId × String} (left : scope (request uuid r) = some k)
    (right : scope (request uuid q) = some k) : routeName r.call.command = routeName q.call.command := by
  simp only [scope,bind,Option.bind_eq_some_iff] at left right
  obtain ⟨u,-,key,-,joined⟩ := left
  obtain ⟨v,-,key',-,joined'⟩ := right
  have pair := Prod.mk.inj (Option.some.inj (joined.trans joined'.symm))
  exact (scopedKeyInjective (routeNamePlain _) (routeNamePlain _) pair.2).2.1

theorem existingRoute {c d : Command} (existing : ∀ params, c ≠ .createTask params)
    (same : routeName d = routeName c) : ∀ params, d ≠ .createTask params := by
  rintro params rfl
  cases c
  case createTask params => exact existing params rfl
  all_goals exact absurd same (by simp [routeName])

/-- In every interleaving: a request that is not answered from the store shows nobody out of
sight whom it did not assign, and a stored response shows one just when someone is lost. -/
theorem runShown {household : Household} {moves : List (Move Call)} {last : Config Store Statement Outcome}
    (ran : run (routes uuid sha256 intl) (begins (Idempotency.opened household)) moves = some last)
    {i : Nat} {a : Answer} (at_ : last.calls[i]? = some (.returned (.answered a)))
    (existing : ∀ params, a.call.command ≠ .createTask params) :
    (a.replayed = false → (∀ id m, a.call.command = .assignTask id m → m ∈ a.visible) → Clean a) ∧
      (a.replayed = true → (Clean a ↔ ∀ m, ¬ Lost uuid last.store a m)) := by
  have base : (discipline uuid intl).good 0 (Idempotency.opened household) :=
    ⟨Idempotency.openedRecorded household,fun _ mem => (List.not_mem_nil mem).elim⟩
  have sound := runSound startHolds base ran
  have justified := sound.2 i _ at_ a rfl existing
  refine ⟨?_,?_⟩
  · intro fresh seen m mem
    rw [if_neg (by simp [fresh])] at justified
    obtain there | ⟨id,assigns⟩ := justified m mem
    · exact there
    · exact seen id m assigns
  · intro replayed
    rw [if_pos replayed] at justified
    obtain ⟨k,own,h,mem,same,response⟩ := justified
    refine ⟨?_,?_⟩
    · rintro clean m ⟨g,-,-,is,shows,-,gone⟩
      exact gone (clean m (is ▸ shows))
    · intro kept m shows
      by_contra gone
      obtain ⟨is,shown⟩ := sound.1.shown h mem
      have route := sameRoute (is ▸ same) own
      exact kept m ⟨h,mem,same.trans own.symm,response,response ▸ shows,
        shown (existingRoute existing route) m (response ▸ shows),gone⟩

def atHome : Household :=
  ⟨⟨⟨⟨[⟨0,"Home",none⟩],by decide⟩,
      ⟨[⟨1,0,.adult,.owner,some 10,some "Ada",none,none⟩,⟨2,0,.child,.viewer,none,some "Charlie",none,none⟩],by decide⟩,
      ⟨[⟨0,0,1,2,none⟩],by decide⟩,.empty,[]⟩,by decide⟩,.empty⟩

def anyUuid (_ : FamilyId) : Uuid := ⟨"the same",by decide⟩

def asks (header : Option String) (command : Command) : Call :=
  .task ⟨some 10,header,0,1,command,none,"body",0,0,0⟩

def packsKit : Call := asks none (.createTask ⟨"Pack PE kit",none,none,none,none,none,[2]⟩)
def done : Call := asks (some "key") (.completeTask 0 1)

def completes : List (Move Call) :=
  [.begin packsKit,.advance 0,.advance 0,.begin done,.advance 1,.advance 1,.advance 1,.advance 1]

def answerOf (c : Config Store Statement Outcome) (i : Nat) : Option Answer :=
  match c.calls[i]? with
  | some (.returned (.answered a)) => some a
  | _ => none

theorem answerOfSource {c : Config Store Statement Outcome} {i : Nat} {a : Answer} (is : answerOf c i = some a) :
    c.calls[i]? = some (.returned (.answered a)) := by
  unfold answerOf at is
  split at is
  · cases is
    assumption
  · cases is

theorem completesAgain :
    Reaches (routes anyUuid id Tasks.everywhereUtc) (begins (Idempotency.opened atHome))
      (completes ++ [.begin done,.advance 2]) (fun c => ∃ a ∈ answerOf c 2, a.replayed = true ∧
        a.response.body.assignees = [2] ∧ (Clean a ↔ ∀ m, ¬ Lost anyUuid c.store a m)) := by
  obtain ⟨last,ran,a,is,replayed,shows,existing⟩ : Reaches (routes anyUuid id Tasks.everywhereUtc)
      (begins (Idempotency.opened atHome)) (completes ++ [.begin done,.advance 2]) (fun c =>
        ∃ a ∈ answerOf c 2, a.replayed = true ∧ a.response.body.assignees = [2] ∧ a.call.command = .completeTask 0 1) := by
    decide +kernel
  refine ⟨last,ran,a,is,replayed,shows,?_⟩
  exact (runShown ran (answerOfSource is) (fun params same => by rw [existing] at same; cases same)).2 replayed

theorem completesAfterwards :
    Reaches (routes anyUuid id Tasks.everywhereUtc) (begins (Idempotency.opened atHome))
      (completes ++ [.begin (.family (.saveGuardianship 0 ⟨0,0,1,2,some 50⟩)),.advance 2,.begin done,.advance 3]) (fun c =>
        ∃ a ∈ answerOf c 3, a.replayed = true ∧ a.visible = [1] ∧ a.response.body.assignees = [2]) := by
  decide +kernel

end FamilyPlatform.TaskApi
