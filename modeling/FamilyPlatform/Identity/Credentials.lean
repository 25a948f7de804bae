import Mathlib.Logic.Function.Basic
import FamilyPlatform.Lib.Machine
import FamilyPlatform.Lib.Serial
import FamilyPlatform.Identity.Accounts
import FamilyPlatform.Identity.Revocation

/-! Which credentials are accepted after any history of sign-ins, renewals, revocations
and deletions. What was issued and what was ended is told by the calls and their answers;
the rows agree with it. -/
namespace FamilyPlatform.Identity
open Interleaving (Ends applyAll alone aloneEnds)
open Accounts (absoluteSessionLifetimeMs)

variable {Token : Type}

def issueSession (now : Instant) (userId : UserId) (deviceId : DeviceId) (tokenHash : String)
    (fresh : SessionId) : Script :=
  .read fun s =>
  match s.users.find userId with
  | none => fail .invalidCredentials
  | some user =>
    if user.status ≠ .active then fail .accountNotVerified
    else save [.saveUser user.clearFailedAttempts,
      .saveSession (.issue fresh user.id deviceId tokenHash now absoluteSessionLifetimeMs)] (.issued fresh tokenHash)

inductive Act (Token : Type) where
  | issue (now : Instant) (userId : UserId) (deviceId : DeviceId) (token : Token)
  | authenticate (now : Instant) (token : Token)
  | renew (now : Instant) (token newToken : Token)
  | revoke (now : Instant) (userId : UserId) (sessionId : SessionId)
  | deleteAccount (now : Instant) (userId : UserId)
  deriving DecidableEq, Repr

def Act.minted : Act Token → List Token
  | .issue _ _ _ token => [token]
  | .renew _ _ newToken => [newToken]
  | .authenticate _ _ | .revoke _ _ _ | .deleteAccount _ _ => []

structure Grant (Token : Type) where
  userId : UserId
  issuedAt : Instant
  credentials : List Token
  ended : Bool

def Grant.renewed (newToken : Token) (g : Grant Token) : Grant Token := { g with credentials := newToken :: g.credentials }
def Grant.stopped (g : Grant Token) : Grant Token := { g with ended := true }

abbrev Grants (Token : Type) := SessionId → Option (Grant Token)

def amend (granted : Grants Token) (id : SessionId) (f : Grant Token → Grant Token) : Grants Token :=
  Function.update granted id ((granted id).map f)

def note (granted : Grants Token) : Act Token → Option Reply → Grants Token
  | .issue now userId _ token, some (.issued id _) =>
    Function.update granted id (some ⟨userId,now,[token],false⟩)
  | .renew _ _ newToken, some (.renewed id _) => amend granted id (Grant.renewed newToken)
  | .renew _ _ _, some (.failed (.sessionReplayDetected id))
  | .authenticate _ _, some (.failed (.sessionReplayDetected id))
  | .revoke _ _ id, some .done => amend granted id Grant.stopped
  | .deleteAccount _ userId, some .done => fun id => (granted id).map (fun g => if g.userId = userId then g.stopped else g)
  | _, _ => granted

structure History (Token : Type) where
  store : Store
  granted : Grants Token
  minted : List Token
  count : Nat

section
variable (hash : Token → String)

/- A new session is named by the number of its call. -/
def script : Act Token → Nat → Script
  | .issue now userId deviceId token,fresh => issueSession now userId deviceId (hash token) fresh
  | .authenticate now token,_ => authenticateSession now (hash token)
  | .renew now token newToken,_ => renewSession now (hash token) (hash newToken)
  | .revoke now userId sessionId,_ => revokeSession now userId sessionId
  | .deleteAccount now userId,_ => requestAccountDeletion now userId

def follow (h : History Token) (act : Act Token) : Option Reply × History Token :=
  let (reply, next) := alone apply (script hash act h.count) h.store
  (reply, ⟨next,note h.granted act reply,h.minted ++ act.minted,h.count + 1⟩)

structure Mirrors (r : Session) (g : Grant Token) : Prop where
  user : r.userId = g.userId
  expires : r.absoluteExpiresAt = g.issuedAt + absoluteSessionLifetimeMs
  current : g.credentials.head?.map hash = some r.tokenHash
  previous : g.credentials.tail.head?.map hash = r.previousTokenHash
  ended : g.ended = r.revokedAt.isSome

structure Tracks (h : History Token) : Prop where
  rows : ∀ id, Option.Rel (Mirrors hash) (h.store.sessions.find id) (h.granted id)
  below : ∀ id g, h.granted id = some g → id < h.count
  known : ∀ id g, h.granted id = some g → ∀ t ∈ g.credentials, t ∈ h.minted
  distinct : ∀ id g, h.granted id = some g → g.credentials.Nodup
  apart : ∀ id g id' g' t, h.granted id = some g → h.granted id' = some g' → t ∈ g.credentials →
    t ∈ g'.credentials → id = id'

end

theorem sessionSaved {row r : Session} {s t : Store} (found : s.sessions.find row.id = some r)
    (issued : row.issuedAt = r.issuedAt) (applied : apply (.saveSession row) s = some t) :
    t.users = s.users ∧ ∀ k, t.sessions.find k = if k = row.id then some row else s.sessions.find k := by
  have after := applySource applied
  refine ⟨by rw [after]; rfl,fun k => ?_⟩
  have rows : t.sessions = upsertSession s.sessions row := by rw [after]; rfl
  rw [rows,upsertSession,Table.findUpsert]
  split
  · rename_i same
    rw [same,found]
    have own : r.id = row.id := (Table.findSource found).2
    simp [own,← issued]
  · rfl

theorem sessionInserted {row : Session} {s t : Store} (fresh : s.sessions.find row.id = none)
    (applied : apply (.saveSession row) s = some t) :
    t.users = s.users ∧ ∀ k, t.sessions.find k = if k = row.id then some row else s.sessions.find k := by
  have after := applySource applied
  refine ⟨by rw [after]; rfl,fun k => ?_⟩
  have rows : t.sessions = upsertSession s.sessions row := by rw [after]; rfl
  rw [rows,upsertSession,Table.findUpsert]
  split
  · rename_i same
    rw [same,fresh]
    rfl
  · rfl

theorem userSaved {u : User} {s t : Store} (applied : apply (.saveUser u) s = some t) : t.sessions = s.sessions := by
  rw [applySource applied]
  rfl

@[simp] theorem aloneFail {e : DomainError} {s : Store} : alone apply (fail e) s = (some (.failed e),s) := rfl

theorem aloneSave {batch : List Statement} {reply : Reply} {s : Store} :
    alone apply (save batch reply) s = match applyAll apply batch s with
      | some t => (some reply,t)
      | none => (none,s) := by
  cases saved : applyAll apply batch s <;> simp [save,alone,saved]

theorem revocationApplies {r : Session} {s : Store} (reason : SessionRevokedReason) (now : Instant)
    (mem : r ∈ s.sessions.rows) : (apply (.saveSession (r.revoke reason now)) s).isSome := by
  have rows : ∀ x ∈ (upsertSession s.sessions (r.revoke reason now)).rows,
      ∃ y ∈ s.sessions.rows, y.id = x.id ∧ y.tokenHash = x.tokenHash ∧ y.userId = x.userId := by
    intro x there
    simp only [upsertSession,Table.memUpsert] at there
    rcases there with ⟨old,-⟩ | ⟨-,rfl⟩ | ⟨y,old,same,rfl⟩
    · exact ⟨x,old,rfl,rfl,rfl⟩
    · exact ⟨r,mem,rfl,rfl,rfl⟩
    · exact ⟨r,mem,same.symm,rfl,rfl⟩
  have legal : Legal (write (.saveSession (r.revoke reason now)) s.toTables) := by
    refine ⟨s.legal.1,fun a left b right same => ?_,fun x there => ?_⟩
    · obtain ⟨y,old,id,token,-⟩ := rows a left
      obtain ⟨z,other,id',token',-⟩ := rows b right
      exact id.symm.trans ((s.legal.2.1 y old z other (token.trans (same.trans token'.symm))).trans id')
    · obtain ⟨y,old,-,-,user⟩ := rows x there
      exact user ▸ s.legal.2.2 y old
  simp [apply,legal]

section
variable {hash : Token → String} {h : History Token}

theorem grantOfRow (tracks : Tracks hash h) {id : SessionId} {r : Session} (there : h.store.sessions.find id = some r) :
    ∃ g, h.granted id = some g ∧ Mirrors hash r g := by
  have agree := tracks.rows id
  rw [there] at agree
  cases granted : h.granted id with
  | none =>
    rw [granted] at agree
    cases agree
  | some g =>
    rw [granted] at agree
    obtain ⟨mirrors⟩ := agree
    exact ⟨g,rfl,mirrors⟩

theorem rowOfGrant (tracks : Tracks hash h) {id : SessionId} {g : Grant Token} (granted : h.granted id = some g) :
    ∃ r, h.store.sessions.find id = some r ∧ Mirrors hash r g := by
  have agree := tracks.rows id
  rw [granted] at agree
  cases there : h.store.sessions.find id with
  | none =>
    rw [there] at agree
    cases agree
  | some r =>
    rw [there] at agree
    obtain ⟨mirrors⟩ := agree
    exact ⟨r,rfl,mirrors⟩

theorem contextSource (injective : Function.Injective hash) (tracks : Tracks hash h) {token : Token}
    {context : SessionAuthContext} (found : findAuthContextByTokenHash (hash token) h.store = some context) :
    ∃ g, h.granted context.session.id = some g ∧ Mirrors hash context.session g ∧
      h.store.sessions.find context.session.id = some context.session ∧
      (∃ u, h.store.users.find g.userId = some u ∧ context.userStatus = u.status) ∧
      if context.matchedPrevious then g.credentials.tail.head? = some token else g.credentials.head? = some token := by
  simp only [findAuthContextByTokenHash,bind,Option.bind_eq_some_iff] at found
  obtain ⟨row,read,user,owner,last⟩ := found
  rw [← Option.some.inj last]
  have there := Table.findMember (List.mem_of_find?_eq_some read)
  have matches' := List.find?_some read
  obtain ⟨g,known,mirrors⟩ := grantOfRow tracks there
  refine ⟨g,known,mirrors,there,⟨user,mirrors.user ▸ owner,rfl⟩,?_⟩
  by_cases current : row.tokenHash = hash token
  · obtain ⟨c,first,same⟩ := Option.map_eq_some_iff.mp mirrors.current
    simp [current,first,injective (same.trans current)]
  · have previous : row.previousTokenHash = some (hash token) := by simpa [current] using matches'
    obtain ⟨c,second,same⟩ := Option.map_eq_some_iff.mp (mirrors.previous.trans previous)
    simp [current,second,injective same]

theorem contextFound (injective : Function.Injective hash) (tracks : Tracks hash h) {token : Token} {id : SessionId}
    {g : Grant Token} (granted : h.granted id = some g)
    (holds : g.credentials.head? = some token ∨ g.credentials.tail.head? = some token) :
    ∃ context, findAuthContextByTokenHash (hash token) h.store = some context ∧ context.session.id = id := by
  have mem : token ∈ g.credentials := by
    rcases holds with first | second
    · exact List.mem_of_head? first
    · exact List.mem_of_mem_tail (List.mem_of_head? second)
  obtain ⟨row,there,mirrors⟩ := rowOfGrant tracks granted
  have matching : (row.tokenHash = hash token || row.previousTokenHash = some (hash token)) = true := by
    rcases holds with first | second
    · have current := mirrors.current
      rw [first] at current
      simp [Option.some.inj current]
    · have previous := mirrors.previous
      rw [second] at previous
      simp [← previous]
  have some' : (h.store.sessions.rows.find? (fun r => r.tokenHash = hash token ||
      r.previousTokenHash = some (hash token))).isSome :=
    List.find?_isSome.mpr ⟨row,(Table.findSource there).1,matching⟩
  obtain ⟨other,read⟩ := Option.isSome_iff_exists.mp some'
  obtain ⟨user,owner⟩ := Option.isSome_iff_exists.mp (h.store.legal.2.2 other (List.mem_of_find?_eq_some read))
  have found : findAuthContextByTokenHash (hash token) h.store =
      some ⟨other,user.status,other.tokenHash ≠ hash token⟩ := by
    simp [findAuthContextByTokenHash,read,owner]
  obtain ⟨g',granted',-,-,-,which⟩ := contextSource injective tracks found
  refine ⟨_,found,tracks.apart _ _ _ _ token granted' granted ?_ mem⟩
  split at which
  · exact List.mem_of_mem_tail (List.mem_of_head? which)
  · exact List.mem_of_head? which

theorem tracksKept {next : History Token} (tracks : Tracks hash h)
    (rows : ∀ id, Option.Rel (Mirrors hash) (next.store.sessions.find id) (next.granted id))
    (source : ∀ id g, next.granted id = some g → ∃ o, h.granted id = some o ∧ g.credentials = o.credentials)
    (minted : h.minted ⊆ next.minted) (count : h.count ≤ next.count) : Tracks hash next where
  rows := rows
  below := by
    intro id g granted
    obtain ⟨o,before,-⟩ := source id g granted
    exact Nat.lt_of_lt_of_le (tracks.below id o before) count
  known := by
    intro id g granted t mem
    obtain ⟨o,before,same⟩ := source id g granted
    exact minted (tracks.known id o before t (same ▸ mem))
  distinct := by
    intro id g granted
    obtain ⟨o,before,same⟩ := source id g granted
    exact same ▸ tracks.distinct id o before
  apart := by
    intro id g id' g' t granted granted' left right
    obtain ⟨o,before,same⟩ := source id g granted
    obtain ⟨o',before',same'⟩ := source id' g' granted'
    exact tracks.apart id o id' o' t before before' (same ▸ left) (same' ▸ right)

section
variable {next : History Token} {id : SessionId} {token : Token} {old : List Token} {now : Grant Token}

theorem grantedEither (granted : next.granted = Function.update h.granted id (some now)) {k : SessionId} {g : Grant Token}
    (source : next.granted k = some g) : k = id ∧ g = now ∨ k ≠ id ∧ h.granted k = some g := by
  rw [granted] at source
  by_cases same : k = id
  · subst same
    rw [Function.update_self] at source
    exact .inl ⟨rfl,(Option.some.inj source).symm⟩
  · rw [Function.update_of_ne same] at source
    exact .inr ⟨same,source⟩

variable (tracks : Tracks hash h) (before : old = [] ∨ ∃ g, h.granted id = some g ∧ g.credentials = old)
include tracks before

theorem oldTracked {t : Token} (mem : t ∈ old) : t ∈ h.minted ∧ ∃ g, h.granted id = some g ∧ t ∈ g.credentials := by
  rcases before with rfl | ⟨g,source,rfl⟩
  · cases mem
  · exact ⟨tracks.known id g source t mem,g,source,mem⟩

theorem pushedDistinct (fresh : token ∉ h.minted) : (token :: old).Nodup := by
  refine List.nodup_cons.mpr ⟨fun mem => fresh (oldTracked tracks before mem).1,?_⟩
  rcases before with rfl | ⟨g,source,rfl⟩
  · exact List.nodup_nil
  · exact tracks.distinct id g source

/- A credential of another session is not the new one, so that a shared one would be an old one. -/
theorem pushedApart (fresh : token ∉ h.minted) {j : SessionId} {o : Grant Token} {t : Token}
    (source : h.granted j = some o) (here : t ∈ o.credentials) (there : t ∈ token :: old) : j = id := by
  have other : t ≠ token := fun same => fresh (same ▸ tracks.known j o source t here)
  obtain ⟨-,g,own,mem⟩ := oldTracked tracks before ((List.mem_cons.mp there).resolve_left other)
  exact tracks.apart j o id g t source own here mem

theorem tracksPushed (rows : ∀ k, Option.Rel (Mirrors hash) (next.store.sessions.find k) (next.granted k))
    (granted : next.granted = Function.update h.granted id (some now)) (pushed : now.credentials = token :: old)
    (fresh : token ∉ h.minted) (minted : next.minted = h.minted ++ [token]) (lt : id < next.count)
    (count : h.count ≤ next.count) : Tracks hash next := by
  refine ⟨rows,fun k g source => ?_,fun k g source t mem => ?_,fun k g source => ?_,fun k g k' g' t left right mem mem' => ?_⟩
  · rcases grantedEither granted source with ⟨rfl,-⟩ | ⟨-,other⟩
    · exact lt
    · exact Nat.lt_of_lt_of_le (tracks.below k g other) count
  · rw [minted,List.mem_append,List.mem_singleton]
    rcases grantedEither granted source with ⟨rfl,rfl⟩ | ⟨-,other⟩
    · rcases List.mem_cons.mp (pushed ▸ mem) with rfl | mem
      · exact .inr rfl
      · exact .inl (oldTracked tracks before mem).1
    · exact .inl (tracks.known k g other t mem)
  · rcases grantedEither granted source with ⟨rfl,rfl⟩ | ⟨-,other⟩
    · exact pushed ▸ pushedDistinct tracks before fresh
    · exact tracks.distinct k g other
  · rcases grantedEither granted left with ⟨rfl,rfl⟩ | ⟨-,first⟩ <;>
      rcases grantedEither granted right with ⟨rfl,rfl⟩ | ⟨-,second⟩
    · rfl
    · exact (pushedApart tracks before fresh second mem' (pushed ▸ mem)).symm
    · exact pushedApart tracks before fresh first mem (pushed ▸ mem')
    · exact tracks.apart k g k' g' t first second mem mem'

end

theorem amendedRows {id : SessionId} {r : Session} {g : Grant Token} {f : Grant Token → Grant Token} {t : Store}
    (tracks : Tracks hash h) (granted : h.granted id = some g) (mirrors : Mirrors hash r (f g))
    (finds : ∀ k, t.sessions.find k = if k = id then some r else h.store.sessions.find k) :
    ∀ k, Option.Rel (Mirrors hash) (t.sessions.find k) (amend h.granted id f k) := by
  intro k
  rw [finds,amend]
  split
  · rename_i same
    subst same
    rw [Function.update_self,granted]
    exact .some mirrors
  · rename_i other
    rw [Function.update_of_ne other]
    exact tracks.rows k

theorem amendSource {id : SessionId} {f : Grant Token → Grant Token} (same : ∀ g, (f g).credentials = g.credentials)
    {granted : Grants Token} :
    ∀ k g, amend granted id f k = some g → ∃ o, granted k = some o ∧ g.credentials = o.credentials := by
  intro k g amended
  by_cases own : k = id
  · subst own
    rw [amend,Function.update_self] at amended
    obtain ⟨o,before,rfl⟩ := Option.map_eq_some_iff.mp amended
    exact ⟨o,before,same o⟩
  · rw [amend,Function.update_of_ne own] at amended
    exact ⟨g,amended,rfl⟩

theorem mirrorsStopped {r : Session} {g : Grant Token} {reason : SessionRevokedReason} {now : Instant}
    (mirrors : Mirrors hash r g) : Mirrors hash (r.revoke reason now) g.stopped :=
  ⟨mirrors.user,mirrors.expires,mirrors.current,mirrors.previous,rfl⟩

theorem revokedAll {reason : SessionRevokedReason} {now : Instant} {s u t : Store} {sessions : List Session}
    (done : List SessionId) (there : ∀ r ∈ sessions, s.sessions.find r.id = some r)
    (far : ∀ k, u.sessions.find k = (s.sessions.find k).map (fun r => if k ∈ done then r.revoke reason now else r))
    (applied : applyAll apply (sessions.map (fun session => .saveSession (session.revoke reason now))) u = some t) :
    t.users = u.users ∧ ∀ k, t.sessions.find k = (s.sessions.find k).map
      (fun r => if k ∈ done ++ sessions.map Session.id then r.revoke reason now else r) := by
  induction sessions generalizing u done with
  | nil =>
    cases Option.some.inj applied
    exact ⟨rfl,by simpa using far⟩
  | cons r rest ih =>
    obtain ⟨next,head,tail⟩ := Option.bind_eq_some_iff.mp applied
    have found : u.sessions.find (r.revoke reason now).id =
        some (if r.id ∈ done then r.revoke reason now else r) := by
      rw [show (r.revoke reason now).id = r.id from rfl,far,there r List.mem_cons_self]
      rfl
    obtain ⟨users,finds⟩ := sessionSaved found (by split <;> rfl) head
    have later := ih (done ++ [r.id]) (fun x mem => there x (List.mem_cons_of_mem r mem)) ?_ tail
    · refine ⟨later.1.trans users,fun k => ?_⟩
      rw [later.2]
      simp
    · intro k
      rw [finds,far]
      by_cases same : k = r.id
      · subst same
        rw [there r List.mem_cons_self]
        simp [Session.revoke]
      · simp [Session.revoke,same]

theorem replayRevokes {context : SessionAuthContext} {s : Store} (now : Instant)
    (there : s.sessions.find context.session.id = some context.session) :
    ∃ t, alone apply (replayDetected context now) s =
        (some (.failed (.sessionReplayDetected context.session.id)),t) ∧ t.users = s.users ∧
      ∀ k, t.sessions.find k =
        if k = context.session.id then some (context.session.revoke .replayDetected now) else s.sessions.find k := by
  obtain ⟨t,saved⟩ := Option.isSome_iff_exists.mp
    (revocationApplies .replayDetected now (Table.findSource there).1)
  have found : s.sessions.find (context.session.revoke .replayDetected now).id = some context.session := there
  exact ⟨t,by simp [replayDetected,save,alone,saved],sessionSaved found rfl saved⟩

theorem authenticateAlone (injective : Function.Injective hash) (tracks : Tracks hash h) (now : Instant) (token : Token) :
    (∃ id g t, h.granted id = some g ∧ g.credentials.tail.head? = some token ∧
      alone apply (authenticateSession now (hash token)) h.store =
        (some (.failed (.sessionReplayDetected id)),t) ∧ t.users = h.store.users ∧
      ∃ r, Mirrors hash r g.stopped ∧ ∀ k, t.sessions.find k = if k = id then some r else h.store.sessions.find k) ∨
    (∃ id g u, h.granted id = some g ∧ g.credentials.head? = some token ∧ g.ended = false ∧
      h.store.users.find g.userId = some u ∧ u.status = .active ∧ now < g.issuedAt + absoluteSessionLifetimeMs ∧
      alone apply (authenticateSession now (hash token)) h.store = (some (.authenticated g.userId id),h.store)) ∨
    alone apply (authenticateSession now (hash token)) h.store = (some (.failed .sessionInvalid),h.store) := by
  simp only [authenticateSession,alone]
  cases found : findAuthContextByTokenHash (hash token) h.store with
  | none => exact .inr (.inr rfl)
  | some context =>
    obtain ⟨g,granted,mirrors,there,⟨u,owner,status⟩,which⟩ := contextSource injective tracks found
    cases previous : context.matchedPrevious with
    | true =>
      obtain ⟨t,replied,users,finds⟩ := replayRevokes now there
      rw [previous] at which
      exact .inl ⟨_,g,t,granted,which,by simpa [previous] using replied,users,_,mirrorsStopped mirrors,finds⟩
    | false =>
      rw [previous] at which
      by_cases usable : context.session.isUsable now ∧ context.userStatus = .active
      · refine .inr (.inl ⟨_,g,u,granted,which,?_,owner,status.symm.trans usable.2,?_,?_⟩)
        · have alive := usable.1
          simp only [Session.isUsable,Bool.and_eq_true] at alive
          rw [mirrors.ended,Option.isNone_iff_eq_none.mp alive.1]
          rfl
        · have alive := usable.1
          simp only [Session.isUsable,Bool.and_eq_true,decide_eq_true_eq] at alive
          rw [← mirrors.expires]
          exact alive.2
        · simp [previous,usable,alone,mirrors.user]
      · refine .inr (.inr ?_)
        rw [not_and_or] at usable
        rcases usable with unusable | inactive
        · simp [previous,unusable,alone,fail]
        · simp [previous,inactive,alone,fail]

theorem rotateError {s : Session} {newTokenHash : String} {now : Instant} {e : DomainError}
    (refused : s.rotate newTokenHash now = .error e) : ∀ id, e ≠ .sessionReplayDetected id := by
  simp only [Session.rotate] at refused
  split at refused <;> try contradiction
  cases refused
  exact fun id same => by cases same

theorem mirrorsRenewed {s row : Session} {g : Grant Token} {newToken : Token} {now : Instant}
    (mirrors : Mirrors hash s g) (rotated : s.rotate (hash newToken) now = .ok row) :
    Mirrors hash row (g.renewed newToken) ∧ row.id = s.id ∧ row.issuedAt = s.issuedAt ∧ s.revokedAt = none := by
  have alive := (Session.rotateSource rotated).1
  simp only [Session.rotate] at rotated
  split at rotated <;> try contradiction
  cases rotated
  exact ⟨⟨mirrors.user,mirrors.expires,rfl,mirrors.current,mirrors.ended⟩,rfl,rfl,alive⟩

theorem renewAlone (injective : Function.Injective hash) (tracks : Tracks hash h) (now : Instant) (token newToken : Token) :
    (∃ id g t, h.granted id = some g ∧ g.credentials.tail.head? = some token ∧
      alone apply (renewSession now (hash token) (hash newToken)) h.store =
        (some (.failed (.sessionReplayDetected id)),t) ∧ t.users = h.store.users ∧
      ∃ r, Mirrors hash r g.stopped ∧ ∀ k, t.sessions.find k = if k = id then some r else h.store.sessions.find k) ∨
    (∃ id g t, h.granted id = some g ∧ g.credentials.head? = some token ∧ g.ended = false ∧
      alone apply (renewSession now (hash token) (hash newToken)) h.store =
        (some (.renewed id (hash newToken)),t) ∧ t.users = h.store.users ∧
      ∃ r, Mirrors hash r (g.renewed newToken) ∧
        ∀ k, t.sessions.find k = if k = id then some r else h.store.sessions.find k) ∨
    (∃ e, (∀ id, e ≠ .sessionReplayDetected id) ∧
      alone apply (renewSession now (hash token) (hash newToken)) h.store = (some (.failed e),h.store)) ∨
    alone apply (renewSession now (hash token) (hash newToken)) h.store = (none,h.store) := by
  simp only [renewSession,alone]
  cases found : findAuthContextByTokenHash (hash token) h.store with
  | none => exact .inr (.inr (.inl ⟨_,by simp,rfl⟩))
  | some context =>
    obtain ⟨g,granted,mirrors,there,-,which⟩ := contextSource injective tracks found
    cases previous : context.matchedPrevious with
    | true =>
      obtain ⟨t,replied,users,finds⟩ := replayRevokes now there
      rw [previous] at which
      exact .inl ⟨_,g,t,granted,which,by simpa [previous] using replied,users,_,mirrorsStopped mirrors,finds⟩
    | false =>
      rw [previous] at which
      cases rotated : context.session.rotate (hash newToken) now with
      | error e => exact .inr (.inr (.inl ⟨e,rotateError rotated,by simp [previous,rotated]⟩))
      | ok row =>
        obtain ⟨mirrors',id,issued,alive⟩ := mirrorsRenewed mirrors rotated
        have there' : h.store.sessions.find row.id = some context.session := id ▸ there
        cases saved : apply (.saveSession row) h.store with
        | none => exact .inr (.inr (.inr (by simp [previous,rotated,aloneSave,saved])))
        | some t =>
          obtain ⟨users,finds⟩ := sessionSaved there' issued saved
          refine .inr (.inl ⟨row.id,g,t,id ▸ granted,which,?_,by simp [previous,rotated,aloneSave,saved],users,row,
            mirrors',finds⟩)
          rw [mirrors.ended,alive]
          rfl

theorem tracksAmended {next : History Token} {id : SessionId} {g : Grant Token} {r : Session} (tracks : Tracks hash h)
    (granted : h.granted id = some g) (mirrors : Mirrors hash r g.stopped)
    (finds : ∀ k, next.store.sessions.find k = if k = id then some r else h.store.sessions.find k)
    (noted : next.granted = amend h.granted id Grant.stopped) (minted : h.minted ⊆ next.minted)
    (count : h.count ≤ next.count) : Tracks hash next := by
  refine tracksKept tracks ?_ ?_ minted count
  · rw [noted]
    exact amendedRows tracks granted mirrors finds
  · rw [noted]
    exact amendSource (fun g => show g.stopped.credentials = g.credentials from rfl)

theorem tracksStill {next : History Token} (tracks : Tracks hash h) (store : next.store = h.store)
    (noted : next.granted = h.granted) (minted : h.minted ⊆ next.minted) (count : h.count ≤ next.count) :
    Tracks hash next := by
  refine tracksKept tracks ?_ ?_ minted count
  · rw [store,noted]
    exact tracks.rows
  · rw [noted]
    exact fun id g granted => ⟨g,granted,rfl⟩

theorem issueTracks (tracks : Tracks hash h) {now : Instant} {userId : UserId} {deviceId : DeviceId} {token : Token}
    (fresh : token ∉ h.minted) : Tracks hash (follow hash h (.issue now userId deviceId token)).2 := by
  have still {reply : Option Reply} (quiet : ∀ id t, reply ≠ some (.issued id t)) :
      Tracks hash ⟨h.store,note h.granted (.issue now userId deviceId token) reply,h.minted ++ [token],h.count + 1⟩ := by
    refine tracksStill tracks rfl ?_ (List.subset_append_left _ _) (Nat.le_succ _)
    match reply with
    | some (.issued id t) => exact absurd rfl (quiet id t)
    | none | some (.failed _) | some (.authenticated _ _) | some (.renewed _ _) | some .done => rfl
  have absent : h.store.sessions.find h.count = none := by
    cases there : h.store.sessions.find h.count with
    | none => rfl
    | some r =>
      obtain ⟨g,granted,-⟩ := grantOfRow tracks there
      exact absurd (tracks.below _ g granted) (Nat.lt_irrefl _)
  simp only [follow,script,issueSession,alone]
  cases found : h.store.users.find userId with
  | none => exact still (by simp)
  | some user =>
    simp only
    split
    · exact still (by simp)
    · cases saved : applyAll apply [.saveUser user.clearFailedAttempts,
          .saveSession (.issue h.count user.id deviceId (hash token) now absoluteSessionLifetimeMs)] h.store with
      | none =>
        rw [aloneSave,saved]
        exact still (by simp)
      | some t =>
        rw [aloneSave,saved]
        obtain ⟨a,first,rest⟩ := Option.bind_eq_some_iff.mp saved
        obtain ⟨b,second,last⟩ := Option.bind_eq_some_iff.mp rest
        cases Option.some.inj last
        have sessions := userSaved first
        have fresh' : a.sessions.find (Session.issue h.count user.id deviceId (hash token) now
            absoluteSessionLifetimeMs).id = none := by rw [sessions]; exact absent
        obtain ⟨-,finds⟩ := sessionInserted fresh' second
        refine tracksPushed tracks (.inl rfl) (fun k => ?_) rfl rfl fresh rfl (Nat.lt_succ_self _) (Nat.le_succ _)
        show Option.Rel (Mirrors hash) (t.sessions.find k) (Function.update h.granted h.count _ k)
        have there : t.sessions.find k = if k = h.count then some _ else a.sessions.find k := finds k
        rw [there,sessions]
        by_cases own : k = h.count
        · rw [if_pos own,own,Function.update_self]
          exact .some ⟨(Table.findSource found).2,rfl,rfl,rfl,rfl⟩
        · rw [if_neg own,Function.update_of_ne own]
          exact tracks.rows k

theorem authenticateTracks (injective : Function.Injective hash) (tracks : Tracks hash h) {now : Instant} {token : Token} :
    Tracks hash (follow hash h (.authenticate now token)).2 := by
  rcases authenticateAlone injective tracks now token with ⟨id,g,t,granted,-,replied,-,row,mirrors,finds⟩ |
      ⟨id,g,u,-,-,-,-,-,-,replied⟩ | replied
  · simp only [follow,script,replied]
    exact tracksAmended tracks granted mirrors finds rfl (by simp [Act.minted]) (Nat.le_succ _)
  · simp only [follow,script,replied]
    exact tracksStill tracks rfl rfl (by simp [Act.minted]) (Nat.le_succ _)
  · simp only [follow,script,replied]
    exact tracksStill tracks rfl rfl (by simp [Act.minted]) (Nat.le_succ _)

theorem renewTracks (injective : Function.Injective hash) (tracks : Tracks hash h) {now : Instant} {token newToken : Token}
    (fresh : newToken ∉ h.minted) : Tracks hash (follow hash h (.renew now token newToken)).2 := by
  have minted : h.minted ⊆ h.minted ++ (Act.renew now token newToken).minted := List.subset_append_left _ _
  rcases renewAlone injective tracks now token newToken with ⟨id,g,t,granted,-,replied,-,row,mirrors,finds⟩ |
      ⟨id,g,t,granted,-,-,replied,-,row,mirrors,finds⟩ | ⟨e,other,replied⟩ | replied
  · simp only [follow,script,replied]
    exact tracksAmended tracks granted mirrors finds rfl minted (Nat.le_succ _)
  · simp only [follow,script,replied]
    have noted : amend h.granted id (Grant.renewed newToken) =
        Function.update h.granted id (some (g.renewed newToken)) := by rw [amend,granted]; rfl
    exact tracksPushed tracks (.inr ⟨g,granted,rfl⟩) (amendedRows tracks granted mirrors finds) noted rfl fresh rfl
      (Nat.lt_succ_of_lt (tracks.below id g granted)) (Nat.le_succ _)
  · simp only [follow,script,replied]
    refine tracksStill tracks rfl ?_ minted (Nat.le_succ _)
    cases e <;> first | rfl | exact absurd rfl (other _)
  · simp only [follow,script,replied]
    exact tracksStill tracks rfl rfl minted (Nat.le_succ _)

theorem revokeTracks (tracks : Tracks hash h) {now : Instant} {userId : UserId} {sessionId : SessionId} :
    Tracks hash (follow hash h (.revoke now userId sessionId)).2 := by
  have minted : h.minted ⊆ h.minted ++ (Act.revoke now userId sessionId : Act Token).minted := by simp [Act.minted]
  simp only [follow,script,revokeSession,alone,findById]
  cases found : h.store.sessions.find sessionId with
  | none => exact tracksStill tracks rfl rfl minted (Nat.le_succ _)
  | some session =>
    simp only
    split
    · exact tracksStill tracks rfl rfl minted (Nat.le_succ _)
    · have own := (Table.findSource found).2
      have found' : h.store.sessions.find (session.revoke .userRevoked now).id = some session := own ▸ found
      cases saved : apply (.saveSession (session.revoke .userRevoked now)) h.store with
      | none =>
        rw [aloneSave,Interleaving.applyAllOne,saved]
        exact tracksStill tracks rfl rfl minted (Nat.le_succ _)
      | some t =>
        rw [aloneSave,Interleaving.applyAllOne,saved]
        obtain ⟨g,granted,mirrors⟩ := grantOfRow tracks found
        exact tracksAmended tracks granted (mirrorsStopped mirrors)
          (own ▸ (sessionSaved found' rfl saved).2) rfl minted (Nat.le_succ _)

theorem changedRows (tracks : Tracks hash h) (k : SessionId) {change : Session → Session}
    {noted : Grant Token → Grant Token} (keeps : ∀ r g, h.store.sessions.find k = some r → Mirrors hash r g →
      Mirrors hash (change r) (noted g)) :
    Option.Rel (Mirrors hash) ((h.store.sessions.find k).map change) ((h.granted k).map noted) := by
  have agree := tracks.rows k
  generalize h.store.sessions.find k = row,h.granted k = grant at agree keeps ⊢
  cases agree with
  | some mirrors => exact .some (keeps _ _ rfl mirrors)
  | none => exact .none

/- The batch of a deletion ends exactly the sessions of the account. -/
theorem deletedRows (tracks : Tracks hash h) {now : Instant} {user gone : User} {t : Store}
    (saved : applyAll apply (.saveUser gone :: ((listByUserId user.id h.store).map
      (fun session => .saveSession (session.revoke .accountDeleted now)) ++ [.append user.id])) h.store = some t)
    (k : SessionId) : Option.Rel (Mirrors hash) (t.sessions.find k)
      ((h.granted k).map (fun g => if g.userId = user.id then g.stopped else g)) := by
  obtain ⟨a,first,rest⟩ := Option.bind_eq_some_iff.mp saved
  rw [Interleaving.applyAllAppend] at rest
  obtain ⟨b,second,rest⟩ := Option.bind_eq_some_iff.mp rest
  obtain ⟨c,third,last⟩ := Option.bind_eq_some_iff.mp rest
  cases Option.some.inj last
  have sessions := userSaved first
  have listed : ∀ r ∈ listByUserId user.id h.store, h.store.sessions.find r.id = some r :=
    fun r mem => Table.findMember (List.mem_filter.mp mem).1
  obtain ⟨-,finds⟩ := revokedAll [] listed (fun k => by simp [sessions]) second
  have same : t.sessions = b.sessions := by rw [applySource third]; rfl
  rw [same,finds]
  refine changedRows tracks k (fun r g there mirrors => ?_)
  obtain ⟨mem,rfl⟩ := Table.findSource there
  have theirs : r.id ∈ [] ++ (listByUserId user.id h.store).map Session.id ↔ g.userId = user.id := by
    rw [List.nil_append,List.mem_map,← mirrors.user]
    constructor
    · rintro ⟨x,source,one⟩
      obtain ⟨other,of⟩ := List.mem_filter.mp source
      rw [← Table.equalOfKey other mem one]
      exact of_decide_eq_true of
    · exact fun of => ⟨r,List.mem_filter.mpr ⟨mem,decide_eq_true of⟩,rfl⟩
  simp only [theirs]
  split
  · exact mirrorsStopped mirrors
  · exact mirrors

theorem deleteAccountTracks (tracks : Tracks hash h) {now : Instant} {userId : UserId} :
    Tracks hash (follow hash h (.deleteAccount now userId)).2 := by
  have minted : h.minted ⊆ h.minted ++ (Act.deleteAccount now userId : Act Token).minted := by simp [Act.minted]
  simp only [follow,script,requestAccountDeletion,alone]
  cases found : h.store.users.find userId with
  | none => exact tracksStill tracks rfl rfl minted (Nat.le_succ _)
  | some user =>
    obtain rfl : user.id = userId := (Table.findSource found).2
    simp only
    cases requested : user.requestDeletion now with
    | error e =>
      have other : note h.granted (.deleteAccount now user.id) (some (.failed e)) = h.granted := by cases e <;> rfl
      exact tracksStill tracks rfl other minted (Nat.le_succ _)
    | ok gone =>
      simp only [alone]
      rw [aloneSave]
      cases saved : applyAll apply (.saveUser gone :: ((listByUserId user.id h.store).map
          (fun session => .saveSession (session.revoke .accountDeleted now)) ++ [.append user.id])) h.store with
      | none => exact tracksStill tracks rfl rfl minted (Nat.le_succ _)
      | some t =>
        refine tracksKept tracks (deletedRows tracks saved) (fun k g granted => ?_) minted (Nat.le_succ _)
        obtain ⟨o,before,rfl⟩ := Option.map_eq_some_iff.mp granted
        refine ⟨o,before,?_⟩
        split <;> rfl

theorem followTracks (injective : Function.Injective hash) (act : Act Token) (tracks : Tracks hash h)
    (fresh : (h.minted ++ act.minted).Nodup) : Tracks hash (follow hash h act).2 := by
  have new (token : Token) (mem : token ∈ act.minted) : token ∉ h.minted :=
    fun old => (List.nodup_append.mp fresh).2.2 token old token mem rfl
  cases act with
  | issue now userId deviceId token => exact issueTracks tracks (new token (by simp [Act.minted]))
  | authenticate now token => exact authenticateTracks injective tracks
  | renew now token newToken => exact renewTracks injective tracks (new newToken (by simp [Act.minted]))
  | revoke now userId sessionId => exact revokeTracks tracks
  | deleteAccount now userId => exact deleteAccountTracks tracks

theorem superseded (injective : Function.Injective hash) (tracks : Tracks hash h) {token : Token} {id : SessionId}
    {g : Grant Token} (granted : h.granted id = some g) (second : g.credentials.tail.head? = some token) :
    ∃ context, findAuthContextByTokenHash (hash token) h.store = some context ∧ context.session.id = id ∧
      context.matchedPrevious = true ∧ h.store.sessions.find context.session.id = some context.session := by
  obtain ⟨context,found,same⟩ := contextFound injective tracks granted (.inr second)
  obtain ⟨o,known,-,there,-,which⟩ := contextSource injective tracks found
  refine ⟨context,found,same,?_,there⟩
  cases previous : context.matchedPrevious with
  | true => rfl
  | false =>
    rw [previous] at which
    have first : o.credentials.head? = some token := by simpa using which
    obtain rfl : o = g := by
      rw [same,granted] at known
      exact (Option.some.inj known).symm
    have distinct := tracks.distinct id o granted
    cases credentials : o.credentials with
    | nil => simp [credentials] at first
    | cons c rest =>
      rw [credentials] at first second distinct
      cases Option.some.inj first
      exact absurd (List.mem_of_head? second) (List.nodup_cons.mp distinct).1

theorem newest (injective : Function.Injective hash) (tracks : Tracks hash h) {token : Token} {id : SessionId}
    {g : Grant Token} (granted : h.granted id = some g) (first : g.credentials.head? = some token) :
    ∃ context, findAuthContextByTokenHash (hash token) h.store = some context ∧ context.session.id = id ∧
      context.matchedPrevious = false ∧ Mirrors hash context.session g ∧
      ∃ u, h.store.users.find g.userId = some u ∧ context.userStatus = u.status := by
  obtain ⟨context,found,same⟩ := contextFound injective tracks granted (.inl first)
  obtain ⟨o,known,mirrors,there,owner,which⟩ := contextSource injective tracks found
  obtain rfl : o = g := by
    rw [same,granted] at known
    exact (Option.some.inj known).symm
  refine ⟨context,found,same,?_,mirrors,owner⟩
  cases previous : context.matchedPrevious with
  | false => rfl
  | true =>
    rw [previous] at which
    obtain ⟨other,found',-,matched,-⟩ := superseded injective tracks known which
    have current := mirrors.current
    rw [first] at current
    simp only [findAuthContextByTokenHash,bind,Option.bind_eq_some_iff] at found
    obtain ⟨row,-,user,-,last⟩ := found
    rw [← Option.some.inj last] at current previous
    simp [Option.some.inj current] at previous

/- The newest credential of a session that has not ended, whose owner is active, within
the lifetime that began with the sign-in. -/
def Valid (h : History Token) (now : Instant) (token : Token) (userId : UserId) (id : SessionId) : Prop :=
  ∃ g u, h.granted id = some g ∧ g.userId = userId ∧ g.credentials.head? = some token ∧ g.ended = false ∧
    h.store.users.find userId = some u ∧ u.status = .active ∧ now < g.issuedAt + absoluteSessionLifetimeMs

theorem authenticatesIff (injective : Function.Injective hash) (tracks : Tracks hash h) {now : Instant} {token : Token}
    {userId : UserId} {id : SessionId} :
    (follow hash h (.authenticate now token)).1 = some (.authenticated userId id) ↔ Valid h now token userId id := by
  constructor
  · intro replied
    rcases authenticateAlone injective tracks now token with ⟨_,_,_,-,-,other,-⟩ |
        ⟨k,g,u,granted,first,alive,owner,active,early,same⟩ | other
    · simp [follow,script,other] at replied
    · simp only [follow,script,same,Option.some.injEq,Reply.authenticated.injEq] at replied
      obtain ⟨rfl,rfl⟩ := replied
      exact ⟨g,u,granted,rfl,first,alive,owner,active,early⟩
    · simp [follow,script,other] at replied
  · rintro ⟨g,u,granted,rfl,first,alive,owner,active,early⟩
    obtain ⟨context,found,rfl,previous,mirrors,v,owner',status⟩ := newest injective tracks granted first
    cases owner.symm.trans owner'
    have unrevoked : context.session.revokedAt = none := by
      have ended := mirrors.ended
      rw [alive] at ended
      simpa using ended.symm
    have usable : context.session.isUsable now = true := by
      simp [Session.isUsable,unrevoked,mirrors.expires,early]
    simp [follow,script,authenticateSession,alone,found,previous,usable,status,active,mirrors.user]

def Act.presents : Act Token → Option Token
  | .authenticate _ token | .renew _ token _ => some token
  | .issue _ _ _ _ | .revoke _ _ _ | .deleteAccount _ _ => none

theorem replayFollowed (injective : Function.Injective hash) (tracks : Tracks hash h) {act : Act Token} {token : Token}
    {id : SessionId} {g : Grant Token} (presents : act.presents = some token) (granted : h.granted id = some g)
    (second : g.credentials.tail.head? = some token) :
    (follow hash h act).1 = some (.failed (.sessionReplayDetected id)) ∧
      (follow hash h act).2.granted = amend h.granted id Grant.stopped := by
  obtain ⟨context,found,rfl,previous,there⟩ := superseded injective tracks granted second
  cases act with
  | issue | revoke | deleteAccount => cases presents
  | authenticate now presented =>
    cases presents
    obtain ⟨t,replied,-⟩ := replayRevokes now there
    have is : alone apply (authenticateSession now (hash token)) h.store =
        (some (.failed (.sessionReplayDetected context.session.id)),t) := by
      simp only [authenticateSession,alone,found,previous]
      exact replied
    simp only [follow,script,is]
    exact ⟨trivial,rfl⟩
  | renew now presented newToken =>
    cases presents
    obtain ⟨t,replied,-⟩ := replayRevokes now there
    have is : alone apply (renewSession now (hash token) (hash newToken)) h.store =
        (some (.failed (.sessionReplayDetected context.session.id)),t) := by
      simp only [renewSession,alone,found,previous]
      exact replied
    simp only [follow,script,is]
    exact ⟨trivial,rfl⟩

def Ended (h : History Token) (id : SessionId) : Prop := ∃ g, h.granted id = some g ∧ g.ended = true

theorem issueEnds {now : Instant} {userId : UserId} {deviceId : DeviceId} {tokenHash : String} {fresh : SessionId} :
    Ends (fun _ => True) (fun reply => (∀ id, accepts id reply = false) ∧ ∀ id t, reply = .issued id t → id = fresh)
      (issueSession now userId deviceId tokenHash fresh) := by
  intro s _
  change Ends _ _ (match s.users.find userId with | none => _ | some user => _)
  split
  · exact ⟨fun _ => rfl,by simp⟩
  · split
    · exact ⟨fun _ => rfl,by simp⟩
    · exact fun _ _ => ⟨fun _ => rfl,fun id t same => by cases same; rfl⟩

theorem revokeEnds {now : Instant} {userId : UserId} {sessionId : SessionId} :
    Ends (fun _ => True) (fun reply => ∀ id, accepts id reply = false) (revokeSession now userId sessionId) := by
  unfold revokeSession
  intro s _
  dsimp only
  split
  · exact fun _ => rfl
  · split
    · exact fun _ => rfl
    · exact fun _ _ _ => rfl

theorem deletionEnds {now : Instant} {userId : UserId} :
    Ends (fun _ => True) (fun reply => ∀ id, accepts id reply = false) (requestAccountDeletion now userId) := by
  intro s _
  change Ends _ _ (match s.users.find userId with | none => _ | some user => _)
  split
  · exact fun _ => rfl
  · split
    · exact fun _ => rfl
    · exact fun _ _ _ _ _ => rfl

def StaysEnded (hash : Token → String) (h : History Token) (id : SessionId) (act : Act Token) : Prop :=
  Ended (follow hash h act).2 id ∧ ∀ reply ∈ (follow hash h act).1, accepts id reply = false

theorem amendEnded {id : SessionId} (ended : Ended h id) (k : SessionId) {f : Grant Token → Grant Token}
    (keeps : ∀ g, g.ended = true → (f g).ended = true) : ∃ g, amend h.granted k f id = some g ∧ g.ended = true := by
  obtain ⟨g,granted,stopped⟩ := ended
  unfold amend
  by_cases same : id = k
  · subst same
    rw [Function.update_self,granted]
    exact ⟨f g,rfl,keeps g stopped⟩
  · rw [Function.update_of_ne same]
    exact ⟨g,granted,stopped⟩

theorem endedStill {next : History Token} {id : SessionId} (ended : Ended h id) (same : next.granted = h.granted) :
    Ended next id := by
  unfold Ended
  rw [same]
  exact ended

theorem endedApart {id k : SessionId} {o : Grant Token} (ended : Ended h id) (known : h.granted k = some o)
    (alive : o.ended = false) : k ≠ id := by
  obtain ⟨g,granted,stopped⟩ := ended
  rintro rfl
  cases known.symm.trans granted
  cases alive.symm.trans stopped

theorem issueEnded (tracks : Tracks hash h) {id : SessionId} (ended : Ended h id) (now : Instant) (userId : UserId)
    (deviceId : DeviceId) (token : Token) : StaysEnded hash h id (.issue now userId deviceId token) := by
  have shape : ∀ reply ∈ (alone apply (issueSession now userId deviceId (hash token) h.count) h.store).1,
      (∀ k, accepts k reply = false) ∧ ∀ k t, reply = .issued k t → k = h.count := aloneEnds issueEnds h.store
  refine ⟨?_,fun reply mem => (shape reply mem).1 id⟩
  simp only [follow,script]
  cases replied : (alone apply (issueSession now userId deviceId (hash token) h.count) h.store).1 with
  | none => exact endedStill ended rfl
  | some reply =>
    cases reply with
    | issued k t =>
      obtain rfl := (shape _ replied).2 k t rfl
      obtain ⟨g,granted,stopped⟩ := ended
      refine ⟨g,?_,stopped⟩
      simp only [note]
      rw [Function.update_of_ne (Nat.ne_of_lt (tracks.below id g granted)),granted]
    | failed | authenticated | renewed | done => exact endedStill ended rfl

theorem authenticateEnded (injective : Function.Injective hash) (tracks : Tracks hash h) {id : SessionId}
    (ended : Ended h id) (now : Instant) (token : Token) : StaysEnded hash h id (.authenticate now token) := by
  unfold StaysEnded
  rcases authenticateAlone injective tracks now token with ⟨k,o,t,-,-,replied,-⟩ |
      ⟨k,o,u,known,-,alive,-,-,-,replied⟩ | replied
  · simp only [follow,script,replied]
    exact ⟨amendEnded ended k (fun _ _ => rfl),by simp [accepts]⟩
  · simp only [follow,script,replied]
    refine ⟨endedStill ended rfl,?_⟩
    rintro _ ⟨⟩
    exact decide_eq_false (endedApart ended known alive)
  · simp only [follow,script,replied]
    exact ⟨endedStill ended rfl,by simp [accepts]⟩

theorem renewEnded (injective : Function.Injective hash) (tracks : Tracks hash h) {id : SessionId}
    (ended : Ended h id) (now : Instant) (token newToken : Token) :
    StaysEnded hash h id (.renew now token newToken) := by
  unfold StaysEnded
  rcases renewAlone injective tracks now token newToken with ⟨k,o,t,-,-,replied,-⟩ |
      ⟨k,o,t,known,-,alive,replied,-⟩ | ⟨e,other,replied⟩ | replied
  · simp only [follow,script,replied]
    exact ⟨amendEnded ended k (fun _ _ => rfl),by simp [accepts]⟩
  · simp only [follow,script,replied]
    refine ⟨amendEnded ended k (fun _ stopped => stopped),?_⟩
    rintro _ ⟨⟩
    exact decide_eq_false (endedApart ended known alive)
  · simp only [follow,script,replied]
    refine ⟨endedStill ended ?_,by simp [accepts]⟩
    cases e <;> first | rfl | exact absurd rfl (other _)
  · simp only [follow,script,replied]
    exact ⟨endedStill ended rfl,by simp⟩

theorem revokeEnded {id : SessionId} (ended : Ended h id) (now : Instant) (userId : UserId) (sessionId : SessionId) :
    StaysEnded hash h id (.revoke now userId sessionId) := by
  have shape : ∀ reply ∈ (alone apply (revokeSession now userId sessionId) h.store).1, ∀ k, accepts k reply = false :=
    aloneEnds revokeEnds h.store
  refine ⟨?_,fun reply mem => shape reply mem id⟩
  simp only [follow,script]
  cases replied : (alone apply (revokeSession now userId sessionId) h.store).1 with
  | none => exact endedStill ended rfl
  | some reply =>
    cases reply with
    | done => exact amendEnded ended sessionId (fun _ _ => rfl)
    | failed | authenticated | issued | renewed => exact endedStill ended rfl

theorem deletionEnded {id : SessionId} (ended : Ended h id) (now : Instant) (userId : UserId) :
    StaysEnded hash h id (.deleteAccount now userId) := by
  have shape : ∀ reply ∈ (alone apply (requestAccountDeletion now userId) h.store).1, ∀ k, accepts k reply = false :=
    aloneEnds deletionEnds h.store
  refine ⟨?_,fun reply mem => shape reply mem id⟩
  simp only [follow,script]
  cases replied : (alone apply (requestAccountDeletion now userId) h.store).1 with
  | none => exact endedStill ended rfl
  | some reply =>
    cases reply with
    | done =>
      obtain ⟨g,granted,stopped⟩ := ended
      refine ⟨if g.userId = userId then g.stopped else g,by simp [note,granted],?_⟩
      split
      · rfl
      · exact stopped
    | failed | authenticated | issued | renewed => exact endedStill ended rfl

theorem endedFollowed (injective : Function.Injective hash) (tracks : Tracks hash h) {id : SessionId} (act : Act Token)
    (ended : Ended h id) : StaysEnded hash h id act := by
  cases act with
  | issue now userId deviceId token => exact issueEnded tracks ended now userId deviceId token
  | authenticate now token => exact authenticateEnded injective tracks ended now token
  | renew now token newToken => exact renewEnded injective tracks ended now token newToken
  | revoke now userId sessionId => exact revokeEnded ended now userId sessionId
  | deleteAccount now userId => exact deletionEnded ended now userId

theorem runTracks (injective : Function.Injective hash) (tracks : Tracks hash h) {acts : List (Act Token)}
    (fresh : (h.minted ++ acts.flatMap Act.minted).Nodup) : Tracks hash (Machine.run (follow hash) h acts).2 ∧
      (Machine.run (follow hash) h acts).2.minted = h.minted ++ acts.flatMap Act.minted := by
  induction acts generalizing h with
  | nil => exact ⟨tracks,by simp [Machine.run]⟩
  | cons act rest ih =>
    rw [List.flatMap_cons,← List.append_assoc] at fresh
    have next := followTracks injective act tracks (List.nodup_append.mp fresh).1
    obtain ⟨last,minted⟩ := ih next fresh
    refine ⟨last,?_⟩
    rw [List.flatMap_cons,← List.append_assoc]
    exact minted

theorem runEnded (injective : Function.Injective hash) {id : SessionId} (tracks : Tracks hash h) (ended : Ended h id)
    {acts : List (Act Token)} (fresh : (h.minted ++ acts.flatMap Act.minted).Nodup) :
    ∀ outcome ∈ (Machine.run (follow hash) h acts).1, ∀ reply ∈ outcome, accepts id reply = false := by
  induction acts generalizing h with
  | nil => simp [Machine.run]
  | cons act rest ih =>
    rw [List.flatMap_cons,← List.append_assoc] at fresh
    obtain ⟨later,refused⟩ := endedFollowed injective tracks act ended
    have rest' := ih (followTracks injective act tracks (List.nodup_append.mp fresh).1) later fresh
    intro outcome mem
    rcases List.mem_cons.mp mem with rfl | mem
    · exact refused
    · exact rest' outcome mem

end

def History.first (s : Store) : History Token := ⟨s,fun _ => none,[],0⟩

theorem firstTracks {hash : Token → String} {s : Store} (none : s.sessions.rows = []) :
    Tracks hash (History.first s) where
  rows := by
    intro id
    have absent : s.sessions.find id = Option.none := by simp [Table.find,none]
    show Option.Rel _ (s.sessions.find id) Option.none
    rw [absent]
    exact .none
  below := by simp [History.first]
  known := by simp [History.first]
  distinct := by simp [History.first]
  apart := by simp [History.first]

/-- After any history with fresh tokens, a token authenticates where it is the newest
credential of a session that has not ended, and nowhere else; a credential that was just
superseded ends its session for good. -/
theorem credentialsKept {hash : Token → String} (injective : Function.Injective hash) {s : Store}
    (none : s.sessions.rows = []) (acts later : List (Act Token)) (act : Act Token)
    (fresh : ((acts ++ act :: later).flatMap Act.minted).Nodup) :
    let h := (Machine.run (follow hash) (History.first s) acts).2
    (∀ now token userId id, (follow hash h (.authenticate now token)).1 = some (.authenticated userId id) ↔
      Valid h now token userId id) ∧
    ∀ token id g, act.presents = some token → h.granted id = some g → g.credentials.tail.head? = some token →
      (follow hash h act).1 = some (.failed (.sessionReplayDetected id)) ∧
      ∀ outcome ∈ (Machine.run (follow hash) (follow hash h act).2 later).1, ∀ reply ∈ outcome,
        accepts id reply = false := by
  intro h
  rw [List.flatMap_append,List.flatMap_cons,← List.append_assoc] at fresh
  have before := (List.nodup_append.mp fresh).1
  have first : Tracks hash (History.first s) := firstTracks none
  obtain ⟨tracks,minted⟩ := runTracks injective first (List.nodup_append.mp before).1
  refine ⟨fun now token userId id => authenticatesIff injective tracks,fun token id g presents granted second => ?_⟩
  obtain ⟨replied,stopped⟩ := replayFollowed injective tracks presents granted second
  have minted' : h.minted = acts.flatMap Act.minted := minted
  have after := followTracks injective act tracks (minted' ▸ before)
  refine ⟨replied,runEnded injective after ⟨g.stopped,?_,rfl⟩ ?_⟩
  · rw [stopped,amend,Function.update_self,granted]
    rfl
  · show ((h.minted ++ act.minted) ++ later.flatMap Act.minted).Nodup
    rw [minted']
    exact fresh

def annOnly : Store := ⟨⟨ann,.empty,[]⟩,by decide⟩

theorem firstTokenEnds :
    let h := (Machine.run (follow id) (History.first annOnly) [.issue 0 1 7 "a",.renew 1 "a" "b"]).2
    ((follow id h (.authenticate 2 "b")).1 = some (.authenticated 1 0) ↔ Valid h 2 "b" 1 0) ∧
    (follow id h (.authenticate 2 "a")).1 = some (.failed (.sessionReplayDetected 0)) ∧
    ∀ outcome ∈ (Machine.run (follow id) (follow id h (.authenticate 2 "a")).2 [.authenticate 3 "b",.renew 4 "b" "c"]).1,
      ∀ reply ∈ outcome, accepts 0 reply = false := by
  intro h
  have injective : Function.Injective (id : String → String) := fun _ _ same => same
  obtain ⟨iff,ends⟩ := credentialsKept injective (s := annOnly) rfl [.issue 0 1 7 "a",.renew 1 "a" "b"]
    [.authenticate 3 "b",.renew 4 "b" "c"] (.authenticate 2 "a") (by decide)
  exact ⟨iff 2 "b" 1 0,ends "a" 0 ⟨1,0,["b","a"],false⟩ rfl rfl rfl⟩

end FamilyPlatform.Identity
