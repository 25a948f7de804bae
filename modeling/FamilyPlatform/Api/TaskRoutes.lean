import FamilyPlatform.Api.Idempotency

/-! The mutating routes of the tasks controller: what each hands to the wrapper, and what
a replay then answers with, request after request. -/
namespace FamilyPlatform.Idempotency
open Interleaving (applyAllOne alone serial)

inductive TaskRoute where
  | createTask (body : String)
  | updateTask (taskId : Uuid) (body : String)
  | completeTask (taskId : Uuid) (body : String)
  | reopenTask (taskId : Uuid) (body : String)
  | cancelTask (taskId : Uuid) (body : String)
  | assignTask (taskId memberId : Uuid)
  | unassignTask (taskId memberId : Uuid)
  deriving DecidableEq

def assigneeParams (familyId taskId memberId : Uuid) : String :=
  "\x7b\"familyId\":\"" ++ familyId.text ++ "\",\"taskId\":\"" ++ taskId.text ++
    "\",\"memberId\":\"" ++ memberId.text ++ "\"\x7d"

namespace TaskRoute

def routeName : TaskRoute → String
  | .createTask _ => "createTask"
  | .updateTask _ _ => "updateTask"
  | .completeTask _ _ => "completeTask"
  | .reopenTask _ _ => "reopenTask"
  | .cancelTask _ _ => "cancelTask"
  | .assignTask _ _ => "assignTask"
  | .unassignTask _ _ => "unassignTask"

/- Most routes hash the body alone. -/
def requestShape (familyId : Uuid) : TaskRoute → String
  | .createTask body => body
  | .updateTask _ body => body
  | .completeTask _ body => body
  | .reopenTask _ body => body
  | .cancelTask _ body => body
  | .assignTask taskId memberId => assigneeParams familyId taskId memberId
  | .unassignTask taskId memberId => assigneeParams familyId taskId memberId

theorem routeNamePlain (route : TaskRoute) : ':' ∉ route.routeName.toList := by
  cases route <;> simp only [routeName] <;> decide

end TaskRoute

structure TaskRequest where
  userId : Option UserId
  header : Option String
  familyId : Uuid
  route : TaskRoute
  deriving DecidableEq

def TaskRequest.toRequest (r : TaskRequest) : Request TaskRoute :=
  ⟨r.userId,r.header,r.familyId,r.route.routeName,r.route.requestShape r.familyId,r.route⟩

theorem plainPrefix {a b x y : List Char} (left : ':' ∉ a) (right : ':' ∉ b)
    (same : a ++ ':' :: x = b ++ ':' :: y) : a = b ∧ x = y := by
  induction a generalizing b with
  | nil =>
    cases b with
    | nil => exact ⟨rfl,List.tail_eq_of_cons_eq same⟩
    | cons c rest => exact absurd (List.head_eq_of_cons_eq same ▸ List.mem_cons_self) right
  | cons c rest ih =>
    cases b with
    | nil => exact absurd ((List.head_eq_of_cons_eq same).symm ▸ List.mem_cons_self) left
    | cons d more =>
      have tail := ih (fun mem => left (List.mem_cons_of_mem c mem))
        (fun mem => right (List.mem_cons_of_mem d mem)) (List.tail_eq_of_cons_eq same)
      exact ⟨by rw [List.head_eq_of_cons_eq same,tail.1],tail.2⟩

theorem scopedKeyInjective {f f' : Uuid} {route route' key key' : String}
    (left : ':' ∉ route.toList) (right : ':' ∉ route'.toList)
    (same : scopedKey f route key = scopedKey f' route' key') : f = f' ∧ route = route' ∧ key = key' := by
  have chars : f.text.toList ++ ':' :: (route.toList ++ ':' :: key.toList) =
      f'.text.toList ++ ':' :: (route'.toList ++ ':' :: key'.toList) := by
    have lists := congrArg String.toList same
    simpa [scopedKey] using lists
  obtain ⟨family,rest⟩ := plainPrefix f.plain f'.plain chars
  obtain ⟨name,last⟩ := plainPrefix left right rest
  refine ⟨?_,String.toList_inj.mp name,String.toList_inj.mp last⟩
  cases f
  cases f'
  simpa using String.toList_inj.mp family

section
variable {Payload Body App : Type} {sha256 : String → String}
  {handle : Payload → Nat → App → Option (App × Response Body)}

theorem handledAlone {r : Request Payload} {call : Nat} {next : Response Body → Script Payload Body App}
    {s t : Store Payload Body App} {reply : Option (Answer Payload Body)}
    (ran : alone (apply handle) (handled handle r call next) s = (reply, t)) :
    (reply = none ∧ t.entries = s.entries) ∨
      ∃ response u, u.entries = s.entries ∧ alone (apply handle) (next response) u = (reply, t) := by
  simp only [handled,alone,applyAllOne] at ran
  split at ran
  · rename_i u applied
    have entries : u.entries = s.entries := by
      simp only [apply,bind,Option.bind_eq_some_iff] at applied
      obtain ⟨⟨app,response⟩,-,last⟩ := applied
      split at last <;> rw [← Option.some.inj last]
    split at ran
    · cases ran
      exact .inl ⟨rfl,entries⟩
    · rename_i app response outcome
      exact .inr ⟨response,u,entries,ran⟩
  · cases ran
    exact .inl ⟨rfl,rfl⟩

theorem idempotentAlone {r : Request Payload} {call : Nat} {s t : Store Payload Body App}
    {reply : Option (Answer Payload Body)}
    (ran : alone (apply handle) (idempotent sha256 handle r call) s = (reply, t)) :
    (∃ e ∈ s.entries.rows, scope r = some (e.userId, e.key) ∧ t.entries = s.entries ∧
      reply = some ⟨r,e.response,true,e.requestHash ≠ hashIdempotentRequest sha256 r⟩) ∨
    (t.entries = s.entries ∧ ∀ a, reply = some a → a.request = r ∧ a.replayed = false) ∨
    (∃ userId key response, scope r = some (userId, key) ∧ response.isSuccess ∧
      t.entries.rows = s.entries.rows ++ [entry sha256 r userId key response] ∧
      reply = some ⟨r,response,false,false⟩) := by
  unfold idempotent at ran
  split at ran
  · obtain ⟨rfl,entries⟩ | ⟨response,u,entries,last⟩ := handledAlone ran
    · exact .inr (.inl ⟨entries,by simp⟩)
    · simp only [alone] at last
      cases last
      exact .inr (.inl ⟨entries,by simp⟩)
  · rename_i userId key own
    simp only [alone] at ran
    split at ran
    · rename_i existing found
      obtain ⟨mem,same⟩ := Table.findSource found
      cases ran
      exact .inl ⟨existing,mem,own.trans (congrArg some same.symm),rfl,rfl⟩
    · obtain ⟨rfl,entries⟩ | ⟨response,u,entries,last⟩ := handledAlone ran
      · exact .inr (.inl ⟨entries,by simp⟩)
      · unfold stored at last
        split at last
        · rename_i success
          simp only [alone,applyAllOne] at last
          split at last
          · rename_i v applied
            cases last
            simp only [apply,bind,Option.bind_eq_some_iff] at applied
            obtain ⟨rows,inserted,done⟩ := applied
            rw [← Option.some.inj done]
            refine .inr (.inr ⟨userId,key,response,own,success,?_,rfl⟩)
            rw [(Table.insertRows inserted).1,entries]
          · cases last
            exact .inr (.inl ⟨entries,by simp⟩)
        · simp only [alone] at last
          cases last
          exact .inr (.inl ⟨entries,by simp⟩)

def Origin (sha256 : String → String) (past : List (Option (Answer Payload Body))) (e : Entry Body) : Prop :=
  ∃ (j : Nat) (b : Answer Payload Body), past[j]? = some (some b) ∧ b.replayed = false ∧
    b.response.isSuccess ∧ b.response = e.response ∧ scope b.request = some (e.userId, e.key) ∧
    hashIdempotentRequest sha256 b.request = e.requestHash

theorem Origin.more {past later : List (Option (Answer Payload Body))} {e : Entry Body}
    (origin : Origin sha256 past e) : Origin sha256 (past ++ later) e := by
  obtain ⟨j,b,at_,rest⟩ := origin
  exact ⟨j,b,by rw [List.getElem?_append_left (List.getElem?_eq_some_iff.mp at_).1,at_],rest⟩

theorem originKept {past : List (Option (Answer Payload Body))} {r : Request Payload} {call : Nat}
    {s t : Store Payload Body App} {reply : Option (Answer Payload Body)}
    (origins : ∀ e ∈ s.entries.rows, Origin sha256 past e)
    (ran : alone (apply handle) (idempotent sha256 handle r call) s = (reply, t)) :
    ∀ e ∈ t.entries.rows, Origin sha256 (past ++ [reply]) e := by
  intro e mem
  obtain ⟨x,-,-,entries,-⟩ | ⟨entries,-⟩ | ⟨userId,key,response,own,success,rows,rfl⟩ :=
    idempotentAlone ran
  · exact (origins e (entries ▸ mem)).more
  · exact (origins e (entries ▸ mem)).more
  · rw [rows] at mem
    rcases List.mem_append.mp mem with old | new
    · exact (origins e old).more
    · rw [List.mem_singleton] at new
      subst e
      exact ⟨past.length,_,List.getElem?_concat_length,rfl,success,rfl,own,rfl⟩

theorem serialOrigin {requests : List (Request Payload)} {past : List (Option (Answer Payload Body))}
    {n i : Nat} {s last : Store Payload Body App} {answers : List (Option (Answer Payload Body))}
    {a : Answer Payload Body} (origins : ∀ e ∈ s.entries.rows, Origin sha256 past e)
    (ran : serial (routes sha256 handle) n s requests = (answers, last))
    (at_ : answers[i]? = some (some a)) : requests[i]? = some a.request ∧ (a.replayed →
      ∃ e, Origin sha256 (past ++ answers.take i) e ∧ scope a.request = some (e.userId, e.key) ∧
        a.response = e.response ∧
        a.reused = decide (e.requestHash ≠ hashIdempotentRequest sha256 a.request)) := by
  induction requests generalizing past n s i answers with
  | nil =>
    cases ran
    simp at at_
  | cons r rest ih =>
    cases first : alone (apply handle) (idempotent sha256 handle r n) s with
    | mk reply t =>
      cases tail : serial (routes sha256 handle) (n + 1) t rest with
      | mk replies final =>
        have whole : serial (routes sha256 handle) n s (r :: rest) = (reply :: replies, final) := by
          change (let (reply, next) := alone (apply handle) (idempotent sha256 handle r n) s
            let (replies, last) := serial (routes sha256 handle) (n + 1) next rest
            (reply :: replies, last)) = _
          rw [first]
          simp only [tail]
        rw [whole] at ran
        cases ran
        cases i with
        | zero =>
          cases Option.some.inj at_
          obtain ⟨e,mem,own,-,same⟩ | ⟨-,fresh⟩ | ⟨userId,key,response,-,-,-,same⟩ :=
            idempotentAlone first
          · cases Option.some.inj same
            refine ⟨rfl,fun _ => ⟨e,?_,own,rfl,rfl⟩⟩
            simpa using origins e mem
          · obtain ⟨own,replayed⟩ := fresh a rfl
            exact ⟨by rw [own]; rfl,fun yes => by rw [replayed] at yes; cases yes⟩
          · cases Option.some.inj same
            exact ⟨rfl,fun yes => by cases yes⟩
        | succ k =>
          have later := ih (originKept origins first) tail at_
          simpa [List.append_assoc] using later

end

/- The answer is that of an earlier success under the same user, family, route and key;
where what the two requests hash differs, it is marked as a reuse of the key. -/
def ReplayOf {Body : Type} (sha256 : String → String) (requests : List TaskRequest)
    (answers : List (Option (Answer TaskRoute Body))) (i : Nat) (a : Answer TaskRoute Body) : Prop :=
  ∃ (j : Nat) (b : Answer TaskRoute Body) (r q : TaskRequest), j < i ∧ answers[j]? = some (some b) ∧
    b.replayed = false ∧ b.response.isSuccess ∧ b.response = a.response ∧
    requests[i]? = some r ∧ requests[j]? = some q ∧ q.userId = r.userId ∧ q.familyId = r.familyId ∧
    q.route.routeName = r.route.routeName ∧
    readIdempotencyKey q.header = readIdempotencyKey r.header ∧
    (a.reused = false → hashIdempotentRequest sha256 q.toRequest =
      hashIdempotentRequest sha256 r.toRequest)

/-- In every sequential history of requests, each replayed answer is of that kind. -/
theorem replayedAnswer {Body App : Type} {sha256 : String → String}
    {handle : TaskRoute → Nat → App → Option (App × Response Body)} {app : App}
    {requests : List TaskRequest} {answers : List (Option (Answer TaskRoute Body))}
    {last : Store TaskRoute Body App} {i : Nat} {a : Answer TaskRoute Body}
    (ran : serial (routes sha256 handle) 0 (opened app) (requests.map TaskRequest.toRequest) =
      (answers, last))
    (at_ : answers[i]? = some (some a)) (replayed : a.replayed) :
    ReplayOf sha256 requests answers i a := by
  have none : ∀ e ∈ (opened app : Store TaskRoute Body App).entries.rows,
      Origin sha256 ([] : List (Option (Answer TaskRoute Body))) e :=
    fun _ mem => (List.not_mem_nil mem).elim
  obtain ⟨own,replays⟩ := serialOrigin none ran at_
  obtain ⟨e,⟨j,b,before,fresh,success,same,key,hash⟩,key',response,reused⟩ := replays replayed
  have lt : j < i := by
    have bound := (List.getElem?_eq_some_iff.mp before).1
    simp only [List.nil_append,List.length_take] at bound
    omega
  have there : answers[j]? = some (some b) := by
    rw [List.nil_append,List.getElem?_take_of_lt lt] at before
    exact before
  have earlier := (serialOrigin none ran there).1
  rw [List.getElem?_map,Option.map_eq_some_iff] at own earlier
  obtain ⟨r,ri,replay⟩ := own
  obtain ⟨q,qj,origin⟩ := earlier
  rw [← replay] at key' reused
  rw [← origin] at key hash
  simp only [scope,bind,Option.bind_eq_some_iff] at key key'
  obtain ⟨u,user,k,read,joined⟩ := key
  obtain ⟨v,user',l,read',joined'⟩ := key'
  have pair := Prod.mk.inj (Option.some.inj (joined.trans joined'.symm))
  obtain ⟨family,name,word⟩ := scopedKeyInjective q.route.routeNamePlain r.route.routeNamePlain pair.2
  refine ⟨j,b,r,q,lt,there,fresh,success,same.trans response.symm,ri,qj,?_,family,name,?_,?_⟩
  · exact user.trans (by rw [pair.1]; exact user'.symm)
  · exact read.trans (by rw [word]; exact read'.symm)
  · intro no
    rw [reused,decide_eq_false_iff_not,not_not] at no
    exact hash.trans no

def echoes : TaskRoute → Nat → Unit → Option (Unit × Response String)
  | .updateTask _ body,_,_ => some ((), ⟨200,body⟩)
  | _,_,_ => some ((), ⟨422,""⟩)

def setTitle (body : String) : TaskRequest :=
  ⟨some 1,some "key",⟨"household",by decide⟩,.updateTask ⟨"task",by decide⟩ body⟩

theorem sameBodyReplayed : ReplayOf id [setTitle "milk",setTitle "milk"]
    (serial (routes id echoes) 0 (opened ()) ([setTitle "milk",setTitle "milk"].map TaskRequest.toRequest)).1
    1 ⟨(setTitle "milk").toRequest,⟨200,"milk"⟩,true,false⟩ :=
  replayedAnswer (Prod.eta _).symm (by decide +kernel) rfl

/- Under one key, the second update is answered with the first one's task. -/
theorem otherBodyReplayed : (setTitle "milk").route ≠ (setTitle "bread").route ∧
    (serial (routes id echoes) 0 (opened ())
        ([setTitle "milk",setTitle "bread"].map TaskRequest.toRequest)).1 =
      [some ⟨(setTitle "milk").toRequest,⟨200,"milk"⟩,false,false⟩,
        some ⟨(setTitle "bread").toRequest,⟨200,"milk"⟩,true,true⟩] := by
  decide +kernel

end FamilyPlatform.Idempotency
