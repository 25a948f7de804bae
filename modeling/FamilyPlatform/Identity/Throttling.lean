import FamilyPlatform.Identity.Deletion

/-! Wrong passwords against one account, in any interleaving. Each failure is counted, and
few are let through in any lockout, where no call reads the account while another has
verified a password that it has not recorded yet. -/
namespace FamilyPlatform.Accounts
open Identity (User Session upsertUser)
open Interleaving (applyAllOne setCases begunCases)
open LateLock (Call Entry Config Move run begins finish Reaches observed Within runKeeps)

abbrev Configuration := Config Store Request View (List Session) Reply

def verifiedAt : Request → View → Option Instant
  | .authenticateUser now _ _ _ _, view =>
    view.user.bind (fun user => if (throttledFor user now).isNone then some now else none)
  | .verifyEmail _ _, _ | .requestAccountDeletion _ _, _ => none

abbrev Caller := Call Store Request View (List Session)

def underWay (call : Caller) : Option Instant :=
  match call.phase with
  | .reading (.ready view) | .holding view _ => verifiedAt call.request view
  | .reading (.read _) | .over => none

def readsAt (c : Configuration) (index : Nat) : Option Instant := do
  let call ← c.calls[index]?
  match call.phase with
  | .reading (.read next) => underWay ⟨call.request,.reading (next c.store)⟩
  | .reading (.ready _) | .holding _ _ | .over => none

def verifies (c : Configuration) : Move Request → List Instant
  | .read index => (readsAt c index).toList
  | .begin _ | .save _ | .commit _ | .abort _ => []

/- All verifications of a run, also those of calls that have not ended. -/
def verifications (verify : String → String → Bool) (s : Store) (moves : List (Move Request)) : List Instant :=
  observed (commands verify) verifies (begins s) moves

def failures (c : Configuration) : Nat := c.log.countP (fun e => decide (e.outcome = .failed .invalidCredentials))

/- No failure is lost, and no period of a lockout's length sees more verifications than
failures are allowed. -/
def Counted (account : User) (c : Configuration) : Prop :=
  (findByEmailAcrossAllStatuses account.email c.store).map User.failedAttemptCount =
    some (account.failedAttemptCount + failures c)

instance (account c) : Decidable (Counted account c) := by unfold Counted; infer_instance

def inPeriod (opens : Instant) (at_ : Instant) : Bool := opens ≤ at_ && at_ < opens + throttleLockoutMs

def Bounded (times : List Instant) : Prop := ∀ opens, times.countP (inPeriod opens) ≤ maxFailedAttempts

def Guesses (verify : String → String → Bool) (account : User) : Move Request → Prop
  | .begin (.authenticateUser _ email password _ _) =>
    email = account.email ∧ verify password account.passwordHash = false
  | .begin (.verifyEmail _ _) | .begin (.requestAccountDeletion _ _) => False
  | .read _ | .save _ | .commit _ | .abort _ => True

instance (verify account m) : Decidable (Guesses verify account m) := by unfold Guesses; split <;> infer_instance

/- No call verifies a password while another has a failure to record, and none that has
one is rolled back. -/
def OneByOne (c : Configuration) : Move Request → Prop
  | .read index => (readsAt c index).isSome → ∀ call ∈ c.calls, underWay call = none
  | .abort index => ∀ call ∈ c.calls[index]?, underWay call = none
  | .begin _ | .save _ | .commit _ => True

instance (c m) : Decidable (OneByOne c m) := by unfold OneByOne; split <;> infer_instance

def tried (account : User) (more : Nat) (throttledUntil : Option Instant) : User :=
  { account with failedAttemptCount := account.failedAttemptCount + more, throttledUntil := throttledUntil }

theorem emailFound {u : User} {s : Store} (mem : u ∈ s.users.rows) :
    findByEmailAcrossAllStatuses u.email s = some u := by
  cases found : findByEmailAcrossAllStatuses u.email s with
  | none => simpa using List.find?_eq_none.mp found u mem
  | some v =>
    have there := List.mem_of_find?_eq_some found
    have email : v.email = u.email := by simpa using List.find?_some found
    rw [Table.equalOfKey there mem (s.legal.1 v there u mem email)]

theorem userApplies {row u : User} {s : Store} (mem : u ∈ s.users.rows) (id : row.id = u.id) (email : row.email = u.email)
    (createdAt : row.createdAt = u.createdAt) :
    ∃ t, apply (.saveUser row) s = some t ∧ findByEmailAcrossAllStatuses u.email t = some row := by
  have rows : ∀ x ∈ (upsertUser s.users row).rows, (x = row) ∨ x ∈ s.users.rows ∧ x.id ≠ row.id := by
    intro x there
    simp only [upsertUser,Table.memUpsert] at there
    rcases there with ⟨old,apart⟩ | ⟨-,rfl⟩ | ⟨y,old,same,rfl⟩
    · exact .inr ⟨old,apart⟩
    · exact .inl rfl
    · obtain rfl := Table.equalOfKey old mem (same.trans id)
      exact .inl (by rw [← id,← createdAt])
  have saved : (upsertUser s.users row).find row.id = some row := by
    simp only [upsertUser,Table.findUpsert,if_true]
    rw [id,Table.findMember mem]
    exact congrArg some (by show ({ row with id := u.id, createdAt := u.createdAt } : User) = row; rw [← id,← createdAt])
  have legal : Legal (write (.saveUser row) s.toTables) := by
    refine ⟨fun a left b right same => ?_,s.legal.2.1,s.legal.2.2.1,fun x there => ?_,fun v there => ?_⟩
    · rcases rows a left with rfl | ⟨oldA,apartA⟩ <;> rcases rows b right with rfl | ⟨oldB,apartB⟩
      · rfl
      · exact id.trans (s.legal.1 u mem b oldB (email.symm.trans same))
      · exact (s.legal.1 a oldA u mem (same.trans email)).trans id.symm
      · exact s.legal.1 a oldA b oldB same
    · refine ⟨?_,(s.legal.2.2.2.1 x there).2⟩
      simp only [write,upsertUser,Table.findUpsert]
      split
      · rfl
      · exact (s.legal.2.2.2.1 x there).1
    · simp only [write,upsertUser,Table.findUpsert]
      split
      · rfl
      · exact s.legal.2.2.2.2 v there
  refine ⟨⟨_,legal⟩,by simp [apply,legal],?_⟩
  rw [← email]
  exact emailFound (s := ⟨_,legal⟩) (Table.findSource saved).1

/- A period's verifications so far, and what is left of them: the count has not come to the
limit within it, or the account stays throttled until it is over. -/
def Left (count : Nat) (throttledUntil : Option Instant) (opens : Instant) (spent : Nat) : Prop :=
  spent < maxFailedAttempts ∧ spent ≤ count ∨
    spent ≤ maxFailedAttempts ∧ ∃ until_ ∈ throttledUntil, opens + throttleLockoutMs ≤ until_

theorem leftSpent {count spent : Nat} {throttledUntil : Option Instant} {opens : Instant}
    (left : Left count throttledUntil opens spent) : spent ≤ maxFailedAttempts :=
  left.elim (fun early => early.1.le) (fun locked => locked.1)

theorem openSource {user : User} {now : Instant} (opened : throttledFor user now = none) :
    ∀ until_ ∈ user.throttledUntil, until_ ≤ now := by
  rintro until_ is
  unfold throttledFor at opened
  rw [Option.mem_def.mp is] at opened
  simp only at opened
  split at opened
  · cases opened
  · exact not_lt.mp (by assumption)

theorem leftFailed {user : User} {now opens : Instant} {spent : Nat} (opened : throttledFor user now = none)
    (left : Left user.failedAttemptCount user.throttledUntil opens spent) :
    let failed := user.recordFailedAttempt now maxFailedAttempts throttleLockoutMs
    Left failed.failedAttemptCount failed.throttledUntil opens (spent + if inPeriod opens now then 1 else 0) := by
  have passed := openSource opened
  simp only [User.recordFailedAttempt]
  by_cases within : inPeriod opens now = true
  · have bounds : opens ≤ now ∧ now < opens + throttleLockoutMs := by simpa [inPeriod] using within
    rw [if_pos within]
    rcases left with ⟨few,counted⟩ | ⟨-,until_,is,later⟩
    · by_cases full : user.failedAttemptCount + 1 ≥ maxFailedAttempts
      · rw [if_pos full]
        exact .inr ⟨few,_,rfl,Int.add_le_add_right bounds.1 _⟩
      · exact .inl ⟨by omega,by omega⟩
    · exact absurd ((bounds.2.trans_le later).trans_le (passed until_ is)) (lt_irrefl now)
  · rw [if_neg within,Nat.add_zero]
    rcases left with ⟨few,counted⟩ | ⟨few,until_,is,later⟩
    · exact .inl ⟨few,by omega⟩
    · refine .inr ⟨few,?_⟩
      split
      · exact ⟨_,rfl,(later.trans (passed until_ is)).trans (Int.le_add_of_nonneg_right (by decide))⟩
      · exact ⟨until_,is,later⟩

section
variable {verify : String → String → Bool} {account user user' : User} {calls : List Caller} {times : List Instant}

/- Where a call with a wrong password stands, by the account as it is stored now. -/
inductive Standing (verify : String → String → Bool) (account user : User) : Caller → Prop where
  | toRead {request : Request} (guess : Guesses verify account (.begin request)) :
      Standing verify account user
        ⟨request,.reading (.read fun s => .ready ⟨none,findByEmailAcrossAllStatuses account.email s⟩)⟩
  | refused {request : Request} {view : View} {seconds : Nat} (unverified : verifiedAt request view = none)
      (planned : plan verify request view = .returns (.failed (.throttled seconds))) :
      Standing verify account user ⟨request,.reading (.ready view)⟩
  | verifying {request : Request} {now : Instant} (guess : Guesses verify account (.begin request))
      (at_ : verifiedAt request ⟨none,some user⟩ = some now) :
      Standing verify account user ⟨request,.reading (.ready ⟨none,some user⟩)⟩
  | recording {request : Request} {now : Instant} {listing : List Session}
      (guess : Guesses verify account (.begin request)) (at_ : verifiedAt request ⟨none,some user⟩ = some now) :
      Standing verify account user ⟨request,.holding ⟨none,some user⟩ listing⟩
  | ended {request : Request} : Standing verify account user ⟨request,.over⟩

theorem startQuiet (request : Request) : underWay ⟨request,.reading (start request)⟩ = none := by
  cases request <;> rfl

theorem Standing.quiet {call : Caller} (standing : Standing verify account user call) (quiet : underWay call = none) :
    Standing verify account user' call := by
  cases standing with
  | toRead guess => exact .toRead guess
  | refused unverified planned => exact .refused unverified planned
  | verifying _ at_ | recording _ at_ => cases at_.symm.trans quiet
  | ended => exact .ended

theorem guessStarts {request : Request} (guess : Guesses verify account (.begin request)) :
    start request = .read fun s => .ready ⟨none,findByEmailAcrossAllStatuses account.email s⟩ := by
  cases request with
  | verifyEmail => cases guess
  | requestAccountDeletion => cases guess
  | authenticateUser now email password tokenHash deviceId =>
    obtain ⟨rfl,-⟩ := guess
    rfl

theorem guessPlan {request : Request} {now : Instant} (guess : Guesses verify account (.begin request))
    (hash : user.passwordHash = account.passwordHash) (at_ : verifiedAt request ⟨none,some user⟩ = some now) :
    throttledFor user now = none ∧ plan verify request ⟨none,some user⟩ = .saves user.id
      (fun _ _ => [.saveUser (user.recordFailedAttempt now maxFailedAttempts throttleLockoutMs)])
      (fun _ => .failed .invalidCredentials) := by
  cases request with
  | verifyEmail => cases guess
  | requestAccountDeletion => cases guess
  | authenticateUser now' email password tokenHash deviceId =>
    simp only [verifiedAt,Option.bind_some,Option.ite_none_right_eq_some,Option.isNone_iff_eq_none] at at_
    obtain ⟨opened,same⟩ := at_
    cases same
    refine ⟨opened,?_⟩
    simp only [plan,authenticateUser,opened,hash,guess.2]
    rfl

theorem guessRefused {request : Request} (guess : Guesses verify account (.begin request))
    (unverified : verifiedAt request ⟨none,some user⟩ = none) :
    ∃ seconds, plan verify request ⟨none,some user⟩ = .returns (.failed (.throttled seconds)) := by
  cases request with
  | verifyEmail => cases guess
  | requestAccountDeletion => cases guess
  | authenticateUser now email password tokenHash deviceId =>
    cases throttled : throttledFor user now with
    | none => simp [verifiedAt,throttled] at unverified
    | some seconds => exact ⟨seconds,by simp only [plan,authenticateUser,throttled]⟩

/- Nobody has a failure to record, or one call has, whose verification comes on top of what
the account shows. -/
inductive Turn (user : User) (times : List Instant) (calls : List Caller) : Prop where
  | quiet (none_ : ∀ (i : Nat) (call : Caller), calls[i]? = some call → underWay call = none)
      (left : ∀ opens, Left user.failedAttemptCount user.throttledUntil opens (times.countP (inPeriod opens)))
  | busy {before : List Instant} {i : Nat} {call : Caller} {now : Instant} (found : calls[i]? = some call)
      (at_ : underWay call = some now) (opened : throttledFor user now = none) (is : times = before ++ [now])
      (others : ∀ (j : Nat) (other : Caller), j ≠ i → calls[j]? = some other → underWay other = none)
      (left : ∀ opens, Left user.failedAttemptCount user.throttledUntil opens (before.countP (inPeriod opens)))

theorem Turn.begin {new : Caller} (turn : Turn user times calls) (quiet : underWay new = none) :
    Turn user times (calls ++ [new]) := by
  cases turn with
  | quiet none_ left =>
    refine .quiet (fun i call found => ?_) left
    rcases begunCases found with old | ⟨-,rfl⟩
    · exact none_ i call old
    · exact quiet
  | @busy before i call now found at_ opened is others left =>
    refine .busy (i := i) ((List.getElem?_append_left (List.getElem?_eq_some_iff.mp found).1).trans found) at_ opened is
      (fun j other apart there => ?_) left
    rcases begunCases there with old | ⟨-,rfl⟩
    · exact others j other apart old
    · exact quiet

theorem Turn.set {index : Nat} {call new : Caller} (turn : Turn user times calls) (found : calls[index]? = some call)
    (same : underWay new = underWay call) : Turn user times (calls.set index new) := by
  cases turn with
  | quiet none_ left =>
    refine .quiet (fun i other there => ?_) left
    rcases setCases there with ⟨-,rfl⟩ | ⟨-,old⟩
    · exact same.trans (none_ index call found)
    · exact none_ i other old
  | @busy before i busy now at_ underWay_ opened is others left =>
    by_cases own : index = i
    · subst own
      cases found.symm.trans at_
      refine .busy (i := index) (by rw [List.getElem?_set_self',found]; rfl) (same.trans underWay_) opened
        is (fun j other apart there => ?_) left
      rcases setCases there with ⟨rfl,-⟩ | ⟨-,old⟩
      · exact absurd rfl apart
      · exact others j other apart old
    · refine .busy (i := i) (by rw [List.getElem?_set_ne own]; exact at_) underWay_ opened is
        (fun j other apart there => ?_) left
      rcases setCases there with ⟨rfl,rfl⟩ | ⟨-,old⟩
      · exact same.trans (others j call apart found)
      · exact others j other apart old

structure Tallied (verify : String → String → Bool) (account user : User) (c : Configuration) (times : List Instant) :
    Prop where
  stored : findByEmailAcrossAllStatuses account.email c.store = some user
  same : ∃ throttledUntil, user = tried account (failures c) throttledUntil
  standing : ∀ (i : Nat) (call : Caller), c.calls[i]? = some call → Standing verify account user call
  turn : Turn user times c.calls

theorem standingSet {index : Nat} {new : Caller}
    (standing : ∀ (i : Nat) (call : Caller), calls[i]? = some call → Standing verify account user call)
    (own : Standing verify account user new) :
    ∀ (i : Nat) (call : Caller), (calls.set index new)[i]? = some call → Standing verify account user call := by
  intro i call found
  rcases setCases found with ⟨-,rfl⟩ | ⟨-,old⟩
  · exact own
  · exact standing i call old

section
variable {c next : Configuration} {index : Nat}

theorem readTallied (oneByOne : OneByOne c (.read index)) (tally : Tallied verify account user c times)
    (moved : LateLock.move (commands verify) c (.read index) = some next) :
    Tallied verify account user next (times ++ verifies c (.read index)) := by
  obtain ⟨stored,same,standing,turn⟩ := tally
  obtain ⟨call,found,moved⟩ := Option.bind_eq_some_iff.mp moved
  split at moved
  · rename_i onward phase
    cases moved
    obtain ⟨request,p⟩ := call
    obtain rfl : p = .reading (.read onward) := phase
    cases standing index _ found with
    | toRead guess =>
      have shown : readsAt c index = verifiedAt request ⟨none,some user⟩ := by
        simp only [readsAt,found,bind,Option.bind,underWay,stored]
      simp only [verifies,shown,stored]
      cases at_ : verifiedAt request ⟨none,some user⟩ with
      | none =>
        obtain ⟨seconds,planned⟩ := guessRefused guess at_
        rw [Option.toList_none,List.append_nil]
        exact ⟨stored,same,standingSet standing (.refused at_ planned),turn.set found at_⟩
      | some now =>
        have none_ := oneByOne (by rw [shown,at_]; rfl)
        refine ⟨stored,same,standingSet standing (.verifying guess at_),?_⟩
        cases turn with
        | busy busy is => exact absurd (none_ _ (List.mem_of_getElem? busy)) (by simp [is])
        | quiet _ left =>
          have own : (c.calls.set index ⟨request,.reading (.ready ⟨none,some user⟩)⟩)[index]? =
              some ⟨request,.reading (.ready ⟨none,some user⟩)⟩ := by
            rw [List.getElem?_set_self',found]
            rfl
          have hash : user.passwordHash = account.passwordHash := same.elim (fun _ is => is ▸ rfl)
          refine .busy own at_ (guessPlan guess hash at_).1 rfl (fun j other apart there => ?_) left
          rcases setCases there with ⟨own,-⟩ | ⟨-,old⟩
          · exact absurd own apart
          · exact none_ other (List.mem_of_getElem? old)
  · cases moved

theorem saveTallied (tally : Tallied verify account user c times)
    (moved : LateLock.move (commands verify) c (.save index) = some next) : Tallied verify account user next times := by
  obtain ⟨stored,same,standing,turn⟩ := tally
  have hash : user.passwordHash = account.passwordHash := same.elim (fun _ is => is ▸ rfl)
  obtain ⟨call,found,moved⟩ := Option.bind_eq_some_iff.mp moved
  split at moved
  · rename_i view phase
    obtain ⟨request,p⟩ := call
    obtain rfl : p = .reading (.ready view) := phase
    cases standing index _ found with
    | refused unverified planned =>
      simp only [commands,planned,Plan.key,Option.some.injEq] at moved
      subst moved
      refine ⟨?_,?_,standingSet standing .ended,?_⟩
      · simpa [finish,planned,Plan.write] using stored
      · simpa [finish,planned,Plan.write,failures] using same
      · exact turn.set found unverified.symm
    | verifying guess at_ =>
      obtain ⟨-,planned⟩ := guessPlan guess hash at_
      simp only [commands,planned,Plan.key] at moved
      split at moved
      · cases moved
        exact ⟨stored,same,standingSet standing (.recording guess at_),turn.set found rfl⟩
      · cases moved
  · cases moved

theorem commitTallied (tally : Tallied verify account user c times)
    (moved : LateLock.move (commands verify) c (.commit index) = some next) :
    ∃ user', Tallied verify account user' next times := by
  obtain ⟨stored,⟨throttledUntil,same⟩,standing,turn⟩ := tally
  have hash : user.passwordHash = account.passwordHash := same ▸ rfl
  have mine : user.id = account.id ∧ user.email = account.email := same ▸ ⟨rfl,rfl⟩
  obtain ⟨call,found,moved⟩ := Option.bind_eq_some_iff.mp moved
  split at moved
  · rename_i view listing phase
    cases moved
    obtain ⟨request,p⟩ := call
    obtain rfl : p = .holding view listing := phase
    cases standing index _ found with
    | @recording _ now _ guess at_ =>
      obtain ⟨opened,planned⟩ := guessPlan guess hash at_
      have mem := List.mem_of_find?_eq_some stored
      obtain ⟨t,applied,after⟩ :=
        @userApplies (user.recordFailedAttempt now maxFailedAttempts throttleLockoutMs) user _ mem rfl rfl rfl
      cases turn with
      | quiet none_ => cases at_.symm.trans (none_ index _ found)
      | @busy before i busy now' there is _ times_ others left =>
        have own : index = i := by
          by_contra apart
          cases at_.symm.trans (others index _ apart found)
        subst own
        cases found.symm.trans there
        cases at_.symm.trans is
        have kept : Tallied verify account (user.recordFailedAttempt now maxFailedAttempts throttleLockoutMs)
            ⟨t,c.calls.set index ⟨request,.over⟩,
              c.log ++ [⟨request,c.store,⟨none,some user⟩,.failed .invalidCredentials,t⟩]⟩ times := by
          refine ⟨mine.2 ▸ after,⟨(user.recordFailedAttempt now maxFailedAttempts throttleLockoutMs).throttledUntil,?_⟩,
            fun j other foundJ => ?_,.quiet (fun j other foundJ => ?_) (fun opens => ?_)⟩
          · simp only [failures,List.countP_append,List.countP_singleton,decide_true,if_true] at same ⊢
            rw [same]
            rfl
          · rcases setCases foundJ with ⟨-,rfl⟩ | ⟨apart,old⟩
            · exact .ended
            · exact (standing j other old).quiet (others j other apart old)
          · rcases setCases foundJ with ⟨-,rfl⟩ | ⟨apart,old⟩
            · rfl
            · exact others j other apart old
          · rw [times_,List.countP_append,List.countP_singleton]
            exact leftFailed opened (left opens)
        refine ⟨user.recordFailedAttempt now maxFailedAttempts throttleLockoutMs,?_⟩
        simpa only [finish,commands,planned,Plan.write,applyAllOne,applied] using kept
  · cases moved

theorem tallied {m : Move Request} (guess : Guesses verify account m) (oneByOne : OneByOne c m)
    (tally : Tallied verify account user c times) (moved : LateLock.move (commands verify) c m = some next) :
    ∃ user', Tallied verify account user' next (times ++ verifies c m) := by
  cases m with
  | begin request =>
    cases moved
    obtain ⟨stored,same,standing,turn⟩ := tally
    refine ⟨user,stored,same,fun i call found => ?_,?_⟩
    · rcases begunCases found with old | ⟨-,rfl⟩
      · exact standing i call old
      · show Standing verify account user ⟨request,.reading (start request)⟩
        rw [guessStarts guess]
        exact .toRead guess
    · rw [verifies,List.append_nil]
      exact turn.begin (startQuiet request)
  | read index => exact ⟨user,readTallied oneByOne tally moved⟩
  | save index =>
    rw [verifies,List.append_nil]
    exact ⟨user,saveTallied tally moved⟩
  | commit index =>
    rw [verifies,List.append_nil]
    exact commitTallied tally moved
  | abort index =>
    rw [verifies,List.append_nil]
    obtain ⟨stored,same,standing,turn⟩ := tally
    obtain ⟨call,found,moved⟩ := Option.bind_eq_some_iff.mp moved
    split at moved
    · cases moved
    · cases moved
      exact ⟨user,stored,same,standingSet standing .ended,turn.set found (oneByOne call found).symm⟩

end

theorem turnBounded (turn : Turn user times calls) : Bounded times := by
  intro opens
  cases turn with
  | quiet none_ left => exact leftSpent (left opens)
  | @busy before i call now found at_ opened is others left =>
    rw [is,List.countP_append,List.countP_singleton]
    exact leftSpent (leftFailed opened (left opens))

/-- Where no call reads the account while another has a failure to record, each failure is
counted, and no period of a lockout's length sees more verifications than are allowed. -/
theorem guessesThrottled (verify : String → String → Bool) {s : Store} {account : User}
    (known : findByEmailAcrossAllStatuses account.email s = some account) {moves : List (Move Request)}
    (guesses : ∀ m ∈ moves, Guesses verify account m) (oneByOne : Within (commands verify) OneByOne (begins s) moves)
    {last : Configuration} (ran : run (commands verify) (begins s) moves = some last) :
    Counted account last ∧ Bounded (verifications verify s moves) := by
  have first : Tallied verify account account (begins s) [] := by
    refine ⟨known,⟨account.throttledUntil,rfl⟩,by simp [begins],.quiet (by simp [begins]) (fun opens => .inl ?_)⟩
    exact ⟨Nat.succ_pos 4,Nat.zero_le _⟩
  have keeps : ∀ c m next times, Guesses verify account m → OneByOne c m → (∃ user, Tallied verify account user c times) →
      LateLock.move (commands verify) c m = some next → ∃ user, Tallied verify account user next (times ++ verifies c m) :=
    fun c m next times guess one kept moved => kept.elim (fun user tally => tallied guess one tally moved)
  obtain ⟨user,tally⟩ := runKeeps keeps ⟨account,first⟩ guesses oneByOne ran
  obtain ⟨throttledUntil,same⟩ := tally.same
  refine ⟨?_,turnBounded tally.turn⟩
  rw [Counted,tally.stored,same]
  rfl

end

def ann : User := ⟨1,⟨"ann@example.org"⟩,"hash of secret",.active,some 0,none,0,none,0⟩

def guess : Move Request := .begin (signIn 10 "guess")

def guessesInTurn : List (Move Request) :=
  (List.range 6).flatMap (fun i => [guess,.read i,.save i,if i < 5 then .commit i else guess])

def guessesAtOnce : List (Move Request) :=
  (List.range 6).map (fun _ => guess) ++ (List.range 6).map .read ++ (List.range 6).flatMap (fun i => [.save i,.commit i])

theorem sixthGuessThrottled : ∃ last, run (commands hashed) (begins signedUp) guessesInTurn = some last ∧
    last.log.map Entry.outcome = List.replicate 5 (.failed .invalidCredentials) ++ [.failed (.throttled 900)] ∧
    Counted ann last ∧ Bounded (verifications hashed signedUp guessesInTurn) := by
  obtain ⟨last,ran,outcomes⟩ : Reaches (commands hashed) (begins signedUp) guessesInTurn (fun last =>
      last.log.map Entry.outcome = List.replicate 5 (.failed .invalidCredentials) ++ [.failed (.throttled 900)]) := by
    decide +kernel
  exact ⟨last,ran,outcomes,@guessesThrottled hashed _ ann (by decide +kernel) _ (by decide +kernel)
    (by decide +kernel) _ ran⟩

theorem guessesAtOnceLost : (∀ m ∈ guessesAtOnce, Guesses hashed ann m) ∧
    Reaches (commands hashed) (begins signedUp) guessesAtOnce (fun last =>
      last.log.map Entry.outcome = List.replicate 6 (.failed .invalidCredentials) ∧ ¬ Counted ann last) ∧
    ¬ Bounded (verifications hashed signedUp guessesAtOnce) := by
  refine ⟨by decide +kernel,by decide +kernel,fun bounded => ?_⟩
  have six : (verifications hashed signedUp guessesAtOnce).countP (inPeriod 0) = 6 := by decide +kernel
  have five := bounded 0
  rw [six] at five
  exact absurd five (by decide)

end FamilyPlatform.Accounts
