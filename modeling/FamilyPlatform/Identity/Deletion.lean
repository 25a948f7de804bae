import FamilyPlatform.Identity.Accounts

/-! A deleted account stays deleted, as long as nothing saves the user as it was read
before the deletion. -/
namespace FamilyPlatform.Accounts
open Identity (User UserId Session SessionId EmailVerification upsertUser upsertSession)
open Interleaving (applyAll applyAllKeeps)
open LateLock (Entry Config Move Reached Framed run begins runLate stores Reaches)

def Requested (userId : UserId) (requestedAt : Option Instant) (s : Store) : Prop :=
  ∃ u, s.users.find userId = some u ∧ u.status = .deletionRequested ∧ u.deletionRequestedAt = requestedAt

def Ended (userId : UserId) (s : Store) : Prop := ∀ r ∈ s.sessions.rows, r.userId = userId → r.revokedAt ≠ none

inductive Saving : Request → User → (List Session → SessionId → List Statement) → Prop where
  | refused {now email password tokenHash deviceId} {copy row : User} (own : row.id = copy.id)
      (status : row.status = copy.status) (requestedAt : row.deletionRequestedAt = copy.deletionRequestedAt) :
      Saving (.authenticateUser now email password tokenHash deviceId) copy (fun _ _ => [.saveUser row])
  | signedIn {now email password tokenHash deviceId lifetime} {copy row : User} (own : row.id = copy.id)
      (active : copy.status = .active) :
      Saving (.authenticateUser now email password tokenHash deviceId) copy
        (fun _ id => [.saveUser row,.saveSession (.issue id copy.id deviceId tokenHash now lifetime),
          .append (.userAuthenticated copy.id id)])
  | verified {now tokenHash} {consumed : EmailVerification} {copy row : User} (own : row.id = copy.id)
      (pending : copy.status = .pendingVerification) :
      Saving (.verifyEmail now tokenHash) copy (fun _ _ => [.saveVerification consumed,.saveUser row])
  | deleted {now userId} {copy row : User} (own : row.id = copy.id) (status : row.status = .deletionRequested)
      (requestedAt : row.deletionRequestedAt = if copy.status = .deletionRequested then copy.deletionRequestedAt else some now) :
      Saving (.requestAccountDeletion now userId) copy (fun sessions _ => .saveUser row ::
        (sessions.map (fun session => .saveSession (session.revoke .accountDeleted now)) ++
          [.append (.userDeletionRequested copy.id)]))

variable {verify : String → String → Bool}

theorem clearedSource (u : User) : u.clearFailedAttempts.id = u.id := by
  unfold User.clearFailedAttempts
  split <;> rfl

theorem verifySource {u verified : User} {now} (ok : u.verify now = .ok verified) :
    u.status = .pendingVerification ∧ verified.id = u.id := by
  unfold User.verify at ok
  split at ok
  · cases ok
  · rename_i pending
    cases ok
    exact ⟨not_not.mp pending,rfl⟩

theorem requestDeletionSource {u requested : User} {now} (ok : u.requestDeletion now = .ok requested) :
    requested.id = u.id ∧ requested.status = .deletionRequested ∧
      requested.deletionRequestedAt = if u.status = .deletionRequested then u.deletionRequestedAt else some now := by
  unfold User.requestDeletion at ok
  split at ok
  · rename_i already
    cases ok
    exact ⟨rfl,already,by rw [if_pos already]⟩
  · rename_i fresh
    split at ok
    · cases ok
    · cases ok
      exact ⟨rfl,rfl,by rw [if_neg fresh]⟩

theorem planSource {request view userId batch reply} (planned : plan verify request view = .saves userId batch reply) :
    ∃ copy, view.user = some copy ∧ copy.id = userId ∧ Saving request copy batch := by
  cases request with
  | authenticateUser now email password tokenHash deviceId =>
    simp only [plan,authenticateUser] at planned
    split at planned
    · cases planned
    · rename_i copy read
      split at planned
      · cases planned
      · split at planned
        · cases planned
          exact ⟨copy,read,rfl,.refused rfl rfl rfl⟩
        · split at planned
          · cases planned
          · rename_i active
            cases planned
            exact ⟨copy,read,rfl,.signedIn (clearedSource copy) (not_not.mp active)⟩
  | verifyEmail now tokenHash =>
    simp only [plan,verifyEmail] at planned
    split at planned
    · cases planned
    · split at planned
      · cases planned
      · split at planned
        · cases planned
        · rename_i copy read
          split at planned
          · cases planned
          · rename_i verified ok
            cases planned
            obtain ⟨pending,own⟩ := verifySource ok
            exact ⟨copy,read,rfl,.verified own pending⟩
  | requestAccountDeletion now userId' =>
    simp only [plan,requestAccountDeletion] at planned
    split at planned
    · cases planned
    · rename_i copy read
      split at planned
      · cases planned
      · rename_i requested ok
        cases planned
        obtain ⟨own,status,requestedAt⟩ := requestDeletionSource ok
        exact ⟨copy,read,rfl,.deleted own status requestedAt⟩

theorem startSource {seen : Store → Prop} {request view copy} (reached : Reached seen (start request) (.ready view))
    (read : view.user = some copy) : ∃ x, seen x ∧ x.users.find copy.id = some copy := by
  have found : ∀ {x : Store} {k}, seen x → x.users.find k = some copy →
      ∃ x, seen x ∧ x.users.find copy.id = some copy := by
    intro x k at_ there
    refine ⟨x,at_,?_⟩
    rw [(Table.findSource there).2]
    exact there
  cases request with
  | authenticateUser now email password tokenHash deviceId =>
    obtain ⟨x,at_,rest⟩ := reached.onward
    cases rest.done
    exact ⟨x,at_,Table.findMember (List.mem_of_find?_eq_some read)⟩
  | verifyEmail now tokenHash =>
    obtain ⟨x,at_,rest⟩ := reached.onward
    split at rest
    · cases rest.done
      cases read
    · split at rest
      · cases rest.done
        cases read
      · obtain ⟨y,there,rest⟩ := rest.onward
        cases rest.done
        exact found there read
  | requestAccountDeletion now userId =>
    obtain ⟨x,at_,rest⟩ := reached.onward
    cases rest.done
    exact found at_ read

def Harmless (userId : UserId) (requestedAt : Option Instant) : Statement → Prop
  | .saveUser row => row.id = userId → row.status = .deletionRequested ∧ row.deletionRequestedAt = requestedAt
  | .saveSession row => row.userId = userId → row.revokedAt ≠ none
  | .saveVerification _ | .append _ => True

section
variable {userId : UserId} {requestedAt : Option Instant} {s t : Store}

theorem requestedStays {w : Statement} (harmless : Harmless userId requestedAt w) (requested : Requested userId requestedAt s)
    (applied : apply w s = some t) : Requested userId requestedAt t := by
  have after := applySource applied
  obtain ⟨u,found,status,at_⟩ := requested
  unfold Requested
  rw [after]
  cases w with
  | saveUser row =>
    simp only [write,upsertUser,Table.findUpsert]
    by_cases own : userId = row.id
    · rw [if_pos own,found]
      obtain ⟨status',at'⟩ := harmless own.symm
      exact ⟨_,rfl,status',at'⟩
    · rw [if_neg own]
      exact ⟨u,found,status,at_⟩
  | saveSession row => exact ⟨u,found,status,at_⟩
  | saveVerification row => exact ⟨u,found,status,at_⟩
  | append event => exact ⟨u,found,status,at_⟩

theorem endedStays {w : Statement} (harmless : Harmless userId requestedAt w) (ended : Ended userId s)
    (applied : apply w s = some t) : Ended userId t := by
  have after := applySource applied
  unfold Ended
  rw [after]
  cases w with
  | saveUser row => exact ended
  | saveVerification row => exact ended
  | append event => exact ended
  | saveSession row =>
    intro r mem own
    simp only [write,upsertSession,Table.memUpsert] at mem
    obtain ⟨old,-⟩ | ⟨-,rfl⟩ | ⟨r',-,-,rfl⟩ := mem
    · exact ended r old own
    · exact harmless own
    · exact harmless own

theorem harmlessBatch {batch : List Statement} (harmless : ∀ w ∈ batch, Harmless userId requestedAt w)
    (applied : applyAll apply batch s = some t) (requested : Requested userId requestedAt s) :
    Requested userId requestedAt t ∧ (Ended userId s → Ended userId t) := by
  refine ⟨?_,fun ended => ?_⟩
  · exact applyAllKeeps (fun w mem _ _ holds step => requestedStays (harmless w mem) holds step) requested applied
  · exact applyAllKeeps (fun w mem _ _ holds step => endedStays (harmless w mem) holds step) ended applied

theorem unrevokedSource {batch : List Statement} (revoked : ∀ row, .saveSession row ∈ batch → row.revokedAt ≠ none)
    (applied : applyAll apply batch s = some t) : ∀ r ∈ t.sessions.rows, r.revokedAt = none →
      r ∈ s.sessions.rows ∧ ∀ row, .saveSession row ∈ batch → row.id ≠ r.id := by
  induction batch generalizing s with
  | nil =>
    cases applied
    exact fun r mem _ => ⟨mem,by simp⟩
  | cons w rest ih =>
    simp only [applyAll,bind,Option.bind_eq_some_iff] at applied
    obtain ⟨u,step,applied⟩ := applied
    intro r mem alive
    obtain ⟨there,others⟩ := ih (fun row in_ => revoked row (List.mem_cons_of_mem w in_)) applied r mem alive
    rw [applySource step] at there
    cases w with
    | saveUser row => exact ⟨there,by simpa using others⟩
    | saveVerification row => exact ⟨there,by simpa using others⟩
    | append event => exact ⟨there,by simpa using others⟩
    | saveSession row =>
      have dead := revoked row List.mem_cons_self
      simp only [write,upsertSession,Table.memUpsert] at there
      obtain ⟨old,apart⟩ | ⟨-,rfl⟩ | ⟨r',-,-,rfl⟩ := there
      · refine ⟨old,fun row' in_ => ?_⟩
        rcases List.mem_cons.mp in_ with same | later
        · cases same
          exact Ne.symm apart
        · exact others row' later
      · exact absurd alive dead
      · exact absurd alive dead

theorem listFrame {batch : List Statement} (apart : ∀ row, .saveSession row ∈ batch → row.userId ≠ userId ∧
      ∀ r ∈ s.sessions.rows, r.userId = userId → r.id ≠ row.id)
    (applied : applyAll apply batch s = some t) : listByUserId userId t = listByUserId userId s := by
  refine @applyAllKeeps _ _ apply (fun u => listByUserId userId u = listByUserId userId s) batch ?_ s t rfl applied
  intro w mem u u' same step
  rw [← same]
  unfold listByUserId
  rw [applySource step]
  cases w with
  | saveUser row => rfl
  | saveVerification row => rfl
  | append event => rfl
  | saveSession row =>
    obtain ⟨other,ids⟩ := apart row mem
    have out : decide (row.userId = userId) = false := by simp [other]
    refine Table.filterUpsert _ out ?_
    intro r there taken
    refine ⟨?_,out⟩
    rw [decide_eq_false_iff_not]
    intro own
    have listed : r ∈ listByUserId userId u := List.mem_filter.mpr ⟨there,by simpa using own⟩
    rw [same] at listed
    obtain ⟨before,-⟩ := List.mem_filter.mp listed
    exact ids r before own taken

end

theorem listFramed : Framed (commands verify) := by
  intro s q v r w userId listed other
  have is : ∀ u : Store, (commands verify).list u r w = listByUserId userId u := by
    intro u
    simp only [commands] at listed ⊢
    cases planned : plan verify r w with
    | returns reply =>
      rw [planned] at listed
      cases listed
    | saves own batch reply =>
      rw [planned] at listed
      cases listed
      rfl
  rw [is,is]
  simp only [commands] at other ⊢
  cases planned : plan verify q v with
  | returns reply => rfl
  | saves own batch reply =>
    have apart : own ≠ userId := fun same => other (by rw [planned,same]; rfl)
    obtain ⟨copy,-,rfl,saving⟩ := planSource planned
    simp only [Plan.write,Plan.list]
    split
    · rename_i committed applied
      refine listFrame ?_ applied
      cases saving with
      | refused => simp
      | verified => simp
      | signedIn =>
        intro row mem
        obtain rfl : row = _ := by simpa using mem
        exact ⟨apart,fun x there _ same => Nat.lt_irrefl _ (same ▸ (s.legal.2.2.2.1 x there).2)⟩
      | deleted =>
        intro row mem
        obtain ⟨session,listed,rfl⟩ : ∃ session ∈ listByUserId copy.id s, session.revoke .accountDeleted _ = row := by
          simpa using mem
        obtain ⟨there,is⟩ := List.mem_filter.mp listed
        have own : session.userId = copy.id := by simpa using is
        refine ⟨fun same => apart (own.symm.trans same),fun x mem' its same => ?_⟩
        obtain rfl := Table.equalOfKey mem' there same
        exact apart (own.symm.trans its)
    · rfl

abbrev Commit := Entry Store Request View Reply

/- A save of a deleted account is made from a copy that was read as deleted, or repeats
the deletion at the very time it has. -/
def Commit.Current (verify : String → String → Bool) (e : Commit) : Prop :=
  ∀ stored ∈ ((commands verify).key e.request e.view).bind e.before.users.find, stored.status = .deletionRequested →
    e.view.user.map User.status = some .deletionRequested ∨
      ∃ now ∈ stored.deletionRequestedAt, e.request = .requestAccountDeletion now stored.id

instance (verify e) : Decidable (Commit.Current verify e) := by unfold Commit.Current; infer_instance

def Kept (userId : UserId) (s t : Store) : Prop :=
  ∀ requestedAt, Requested userId requestedAt s → Requested userId requestedAt t ∧ (Ended userId s → Ended userId t)

theorem savingHarmless {request copy batch userId requestedAt} (saving : Saving request copy batch)
    (sessions : List Session) (id : SessionId)
    (prior : copy.id = userId → copy.status = .deletionRequested → copy.deletionRequestedAt = requestedAt)
    (current : copy.id = userId → copy.status = .deletionRequested ∨
      ∃ now, request = .requestAccountDeletion now userId ∧ requestedAt = some now) :
    ∀ w ∈ batch sessions id, Harmless userId requestedAt w := by
  intro w mem
  cases saving with
  | refused own status at_ =>
    obtain rfl := List.mem_singleton.mp mem
    intro same
    have mine := own.symm.trans same
    obtain is | ⟨now,other,-⟩ := current mine
    · exact ⟨status.trans is,at_.trans (prior mine is)⟩
    · cases other
  | signedIn own active =>
    have stranger : copy.id ≠ userId := by
      intro mine
      obtain is | ⟨now,other,-⟩ := current mine
      · cases active.symm.trans is
      · cases other
    obtain rfl | rfl | rfl : w = _ ∨ w = _ ∨ w = _ := by simpa using mem
    · exact fun same => absurd (own.symm.trans same) stranger
    · exact fun same => absurd same stranger
    · trivial
  | verified own pending =>
    obtain rfl | rfl : w = _ ∨ w = _ := by simpa using mem
    · trivial
    · intro same
      obtain is | ⟨now,other,-⟩ := current (own.symm.trans same)
      · cases pending.symm.trans is
      · cases other
  | @deleted now _ _ row own status at_ =>
    rcases List.mem_cons.mp mem with rfl | tail
    · intro same
      have mine := own.symm.trans same
      refine ⟨status,at_.trans ?_⟩
      split
      · exact prior mine (by assumption)
      · rename_i fresh
        obtain is | ⟨now',is,at'⟩ := current mine
        · exact absurd is fresh
        · cases is
          exact at'.symm
    · rcases List.mem_append.mp tail with session | last
      · obtain ⟨r,-,rfl⟩ := List.mem_map.mp session
        intro _ alive
        cases alive
      · obtain rfl := List.mem_singleton.mp last
        trivial

theorem commitKept (userId : UserId) (e : Commit) (current : e.Current verify)
    (reached : Reached (fun x => Kept userId x e.before) ((commands verify).start e.request) (.ready e.view))
    (made : (commands verify).write e.before e.request e.view ((commands verify).list e.before e.request e.view) =
      (e.outcome,e.after)) : Kept userId e.before e.after := by
  intro requestedAt requested
  simp only [commands] at made
  cases planned : plan verify e.request e.view with
  | returns reply =>
    rw [planned] at made
    obtain ⟨-,same⟩ := Prod.mk.inj made
    exact same ▸ ⟨requested,id⟩
  | saves own batch reply =>
    rw [planned] at made
    simp only [Plan.write] at made
    obtain ⟨copy,read,rfl,saving⟩ := planSource planned
    split at made
    · rename_i committed applied
      obtain ⟨-,same⟩ := Prod.mk.inj made
      refine same ▸ harmlessBatch (savingHarmless saving _ _ ?_ ?_) applied requested
      · intro mine is
        obtain ⟨x,kept,found⟩ := startSource reached read
        obtain ⟨⟨u,found',-,at_⟩,-⟩ := kept copy.deletionRequestedAt ⟨copy,by rw [← mine]; exact found,is,rfl⟩
        obtain ⟨v,stored,-,at'⟩ := requested
        cases stored.symm.trans found'
        exact at_.symm.trans at'
      · intro mine
        obtain ⟨u,stored,status,at_⟩ := requested
        have saves : (commands verify).key e.request e.view = some userId := by
          simp only [commands,planned,Plan.key,mine]
        obtain is | ⟨now,at',is⟩ := current u (by rw [saves]; exact stored) status
        · rw [read] at is
          exact .inl (Option.some.inj is)
        · exact .inr ⟨now,by rw [is,(Table.findSource stored).2],at_.symm.trans at'⟩
    · obtain ⟨-,same⟩ := Prod.mk.inj made
      exact same ▸ ⟨requested,id⟩

theorem savedRequested {requested : User} {s t : Store} (status : requested.status = .deletionRequested)
    (applied : apply (.saveUser requested) s = some t) : Requested requested.id requested.deletionRequestedAt t := by
  have is : t.users.find requested.id = some ((s.users.find requested.id).elim requested
      (fun r => { requested with id := r.id, createdAt := r.createdAt })) := by
    rw [applySource applied]
    simp only [write,upsertUser,Table.findUpsert,if_true]
  refine ⟨_,is,?_⟩
  cases s.users.find requested.id with
  | none => exact ⟨status,rfl⟩
  | some r => exact ⟨status,rfl⟩

/- The batch of a deletion: the account, every session it has revoked, and the event. -/
theorem deletionWritten {requested : User} {now : Instant} {event : Event} {s t : Store}
    (status : requested.status = .deletionRequested)
    (applied : applyAll apply (.saveUser requested :: (((listByUserId requested.id s).map
      (fun session => Statement.saveSession (session.revoke .accountDeleted now))) ++ [.append event])) s = some t) :
    Requested requested.id requested.deletionRequestedAt t ∧ Ended requested.id t := by
  simp only [applyAll,bind,Option.bind_eq_some_iff] at applied
  obtain ⟨saved,first,rest⟩ := applied
  have after := applySource first
  constructor
  · refine (harmlessBatch ?_ rest (savedRequested status first)).1
    intro w mem
    rcases List.mem_append.mp mem with session | last
    · obtain ⟨r,-,rfl⟩ := List.mem_map.mp session
      exact fun _ alive => by cases alive
    · obtain rfl := List.mem_singleton.mp last
      trivial
  · intro r mem mine alive
    obtain ⟨there,others⟩ := unrevokedSource (by
      intro row in_
      obtain ⟨session,-,rfl⟩ : ∃ session ∈ listByUserId requested.id s, session.revoke .accountDeleted now = row := by
        simpa using in_
      exact Option.some_ne_none now) rest r mem alive
    rw [after] at there
    have listed : r ∈ listByUserId requested.id s := List.mem_filter.mpr ⟨there,by simpa using mine⟩
    refine others (r.revoke .accountDeleted now) ?_ rfl
    exact List.mem_append_left _ (List.mem_map.mpr ⟨r,listed,rfl⟩)

theorem deletionDone {userId now} {e : Commit} (is : e.request = .requestAccountDeletion now userId)
    (done : e.outcome = .done) (reached : Reached (fun _ => True) ((commands verify).start e.request) (.ready e.view))
    (made : (commands verify).write e.before e.request e.view ((commands verify).list e.before e.request e.view) =
      (e.outcome,e.after)) : ∃ requestedAt, Requested userId requestedAt e.after ∧ Ended userId e.after := by
  simp only [commands] at made reached
  rw [is] at reached
  obtain ⟨x,-,rest⟩ := reached.onward
  have view := rest.done
  have planned : plan verify e.request e.view = requestAccountDeletion now (x.users.find userId) := by
    rw [is,view]
    rfl
  rw [planned,done] at made
  unfold requestAccountDeletion at made
  split at made
  · cases (Prod.mk.inj made).1
  · rename_i copy read
    obtain rfl : copy.id = userId := (Table.findSource read).2
    split at made
    · cases (Prod.mk.inj made).1
    · rename_i requested ok
      obtain ⟨own,status,-⟩ := requestDeletionSource ok
      simp only [Plan.write,Plan.list] at made
      split at made
      · rename_i committed applied
        obtain ⟨-,same⟩ := Prod.mk.inj made
        rw [← same,← own]
        rw [← own] at applied
        exact ⟨_,deletionWritten status applied⟩
      · cases (Prod.mk.inj made).1

/-- Once a deletion has committed, the account stays deleted since the time it has then,
and none of its sessions is usable, where no save of it is made from an older copy. -/
theorem runDeleted (verify : String → String → Bool) {s : Store} {moves : List (Move Request)}
    {last : Config Store Request View (List Session) Reply} (ran : run (commands verify) (begins s) moves = some last)
    (current : ∀ e ∈ last.log, Commit.Current verify e) {before after : List Commit} {e : Commit}
    (logged : last.log = before ++ e :: after) {now : Instant} {userId : UserId}
    (is : e.request = .requestAccountDeletion now userId) (done : e.outcome = .done) :
    ∃ requestedAt, Requested userId requestedAt e.after ∧ Requested userId requestedAt last.store ∧
      ∀ session ∈ last.store.sessions.rows, session.userId = userId → ∀ at_, session.isUsable at_ = false := by
  have late := runLate listFramed ran
  obtain ⟨reached,made⟩ := late.source e (by simp [logged])
  obtain ⟨requestedAt,requested,ended⟩ := deletionDone is done reached made
  have kept := late.later (Kept userId) (fun _ _ requested => ⟨requested,id⟩)
    (fun x y z first second at_ requested => by
      obtain ⟨there,ended⟩ := first at_ requested
      obtain ⟨there',ended'⟩ := second at_ there
      exact ⟨there',ended' ∘ ended⟩)
    (fun d ok => commitKept userId d ok) current e.after (by simp [stores,logged])
  obtain ⟨stays,silent⟩ := kept requestedAt requested
  exact ⟨requestedAt,requested,stays,fun session mem own _ => Session.revokedUnusable (silent ended session mem own)⟩

def hashed (password hash : String) : Bool := hash == "hash of " ++ password

def signedUp : Store :=
  ⟨⟨⟨[⟨1,⟨"ann@example.org"⟩,"hash of secret",.active,some 0,none,0,none,0⟩],by decide⟩,Table.empty,Table.empty,[],0⟩,
    by decide⟩

def signIn (now : Instant) (password : String) : Request := .authenticateUser now ⟨"ann@example.org"⟩ password "token" 7

def signsIn : List (Move Request) := [.begin (signIn 10 "secret"),.read 0,.save 0,.commit 0]

def deletedThen : List (Move Request) :=
  signsIn ++ [.begin (.requestAccountDeletion 20 1),.read 1,.begin (signIn 30 "guess"),.save 1,.commit 1,.read 2,.save 2,
    .commit 2]

theorem deletedThenStays :
    Reaches (commands hashed) (begins signedUp) deletedThen (fun c => ∃ requestedAt, Requested 1 requestedAt c.store ∧
      ∀ session ∈ c.store.sessions.rows, session.userId = 1 → ∀ at_, session.isUsable at_ = false) := by
  obtain ⟨last,ran,current,requests,outcomes⟩ : Reaches (commands hashed) (begins signedUp) deletedThen (fun c =>
      (∀ e ∈ c.log, Commit.Current hashed e) ∧
      c.log.map Entry.request = [signIn 10 "secret",.requestAccountDeletion 20 1,signIn 30 "guess"] ∧
      c.log.map Entry.outcome = [.authenticated 0 "token" 10 7776000010,.done,.failed .invalidCredentials]) := by
    decide +kernel
  match logged : last.log with
  | [a,e,b] =>
    rw [logged] at requests outcomes
    obtain ⟨-,is,-⟩ : a.request = _ ∧ e.request = _ ∧ b.request = _ := by simpa using requests
    obtain ⟨-,done,-⟩ : a.outcome = _ ∧ e.outcome = _ ∧ b.outcome = _ := by simpa using outcomes
    obtain ⟨requestedAt,-,requested,silent⟩ := @runDeleted hashed _ _ _ ran current [a] [b] e logged 20 1 is done
    exact ⟨last,ran,requestedAt,requested,silent⟩
  | [] | [_] | [_,_] | _ :: _ :: _ :: _ :: _ => simp [logged] at requests

def signInUnderWay (password : String) : List (Move Request) :=
  [.begin (signIn 10 password),.read 0,.begin (.requestAccountDeletion 20 1),.read 1,.save 1,.commit 1,.save 0,.commit 0]

theorem signInUnderWayRevives :
    Reaches (commands hashed) (begins signedUp) (signInUnderWay "secret") (fun c =>
      c.log.map Entry.outcome = [.done,.authenticated 0 "token" 10 7776000010] ∧
        (c.store.users.find 1).map (fun u => (u.status,u.deletionRequestedAt)) = some (.active,none) ∧
          ∃ session ∈ c.store.sessions.rows, session.userId = 1 ∧ session.isUsable 30 = true) ∧
    Reaches (commands hashed) (begins signedUp) (signInUnderWay "guess") (fun c =>
      c.log.map Entry.outcome = [.done,.failed .invalidCredentials] ∧
        (c.store.users.find 1).map (fun u => (u.status,u.deletionRequestedAt)) = some (.active,none)) := by
  decide +kernel

end FamilyPlatform.Accounts
