import FamilyPlatform.Lib.Table
import FamilyPlatform.Lib.Interleaving
import FamilyPlatform.Kernel.Values

/-! The wrapper of the mutating routes. A key is looked up before the handler's own
transaction and stored after it, by a plain insert; the handler is left open. -/
namespace FamilyPlatform.Idempotency
open Interleaving (Steps System)

abbrev UserId := Nat

/- No colon can stand in a path parameter that has been validated as a UUID. -/
structure Uuid where
  text : String
  plain : ':' ∉ text.toList
  deriving DecidableEq

structure Request (Payload : Type) where
  userId : Option UserId
  header : Option String
  familyId : Uuid
  routeName : String
  requestShape : String
  payload : Payload
  deriving DecidableEq

structure Response (Body : Type) where
  status : Nat
  body : Body
  deriving DecidableEq, Repr

structure Entry (Body : Type) where
  userId : UserId
  key : String
  requestHash : String
  response : Response Body
  deriving DecidableEq

variable {Payload Body App : Type}

def Response.isSuccess (r : Response Body) : Bool := 200 ≤ r.status && r.status < 300

def readIdempotencyKey (header : Option String) : Option String :=
  header.filter (fun value => Text.trim value ≠ "")

def scopedKey (familyId : Uuid) (routeName key : String) : String :=
  familyId.text ++ ":" ++ routeName ++ ":" ++ key

/- The JSON text of what the route hashes follows its name. -/
def hashIdempotentRequest (sha256 : String → String) (r : Request Payload) : String :=
  sha256 (r.routeName ++ r.requestShape)

def scope (r : Request Payload) : Option (UserId × String) := do
  let userId ← r.userId
  let key ← readIdempotencyKey r.header
  some (userId, scopedKey r.familyId r.routeName key)

/- The last two fields are a history, which no request reads: the successes that have
committed, and those of their keys under which nothing is stored yet. -/
structure Store (Payload Body App : Type) where
  app : App
  entries : Table (Entry Body) (fun e => (e.userId, e.key))
  handled : List (Request Payload × Response Body)
  awaiting : List (UserId × String)

inductive Statement (Payload Body : Type) where
  | handle (call : Nat) (request : Request Payload)
  | save (entry : Entry Body)

structure Answer (Payload Body : Type) where
  request : Request Payload
  response : Response Body
  replayed : Bool
  reused : Bool
  deriving DecidableEq

section
variable (sha256 : String → String) (handle : Payload → Nat → App → Option (App × Response Body))

def apply : Statement Payload Body → Store Payload Body App → Option (Store Payload Body App)
  | .handle call r, s => do
    let (app, response) ← handle r.payload call s.app
    if response.isSuccess then
      some { s with app, handled := s.handled ++ [(r, response)],
                    awaiting := s.awaiting ++ (scope r).toList }
    else some { s with app }
  | .save e, s => do
    let entries ← s.entries.insert e
    some { s with entries, awaiting := s.awaiting.filter (· ≠ (e.userId, e.key)) }

abbrev Script (Payload Body App : Type) :=
  Steps (Store Payload Body App) (Statement Payload Body) (Answer Payload Body)

def handled (r : Request Payload) (call : Nat) (next : Response Body → Script Payload Body App) :
    Script Payload Body App :=
  .commit [.handle call r] fun s =>
  match handle r.payload call s.app with
  | none => .thrown
  | some (_, response) => next response

def entry (r : Request Payload) (userId : UserId) (key : String) (response : Response Body) :
    Entry Body :=
  ⟨userId,key,hashIdempotentRequest sha256 r,response⟩

def stored (r : Request Payload) (userId : UserId) (key : String) (response : Response Body) :
    Script Payload Body App :=
  if response.isSuccess then
    .commit [.save (entry sha256 r userId key response)] fun _ => .returned ⟨r,response,false,false⟩
  else .returned ⟨r,response,false,false⟩

def idempotent (r : Request Payload) (call : Nat) : Script Payload Body App :=
  match scope r with
  | none => handled handle r call fun response => .returned ⟨r,response,false,false⟩
  | some (userId, key) => .read fun s =>
    match s.entries.find (userId, key) with
    | some existing =>
      .returned ⟨r,existing.response,true,existing.requestHash ≠ hashIdempotentRequest sha256 r⟩
    | none => handled handle r call (stored sha256 r userId key)

def routes : System (Store Payload Body App) (Statement Payload Body) (Request Payload)
    (Answer Payload Body) := ⟨apply handle,idempotent sha256 handle⟩

def opened (app : App) : Store Payload Body App := ⟨app,.empty,[],[]⟩

end
end FamilyPlatform.Idempotency
