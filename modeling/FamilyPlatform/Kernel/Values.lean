import Mathlib.Algebra.GroupWithZero.Nat

/-! What every context shares: outcomes, instants, addresses and the strings of JavaScript. -/
namespace FamilyPlatform

inductive DomainError where
  | emailAlreadyRegistered
  | weakPassword (reason : String)
  | invalidCredentials
  | accountNotVerified
  | throttled (retryAfterSeconds : Nat)
  | sessionInvalid
  | sessionReplayDetected (sessionId : Nat)
  | verificationInvalid
  | capabilityRequired (capability : String)
  | guardianshipRequired
  | guardianIneligible (reason : String)
  | lastGuardian
  | ownerRequired (reason : Option String)
  | ownerIneligible (reason : String)
  | alreadyMember
  | invitationInvalid
  | invitationEmailMismatch
  | nameRequired (reason : String)
  | notFound
  | invalidTimeRange (reason : String)
  | unknownTimeZone (timeZone : String)
  | recurrenceInvalid (reason : String)
  | recurrenceUnsupported (part : String)
  | recurrenceTooDense (limit : Nat)
  | rangeTooWide (maxDays : Nat)
  | occurrenceNotMovable
  | participantInvalid
  | invalidDue (field reason : String)
  | recurrenceRequiresDue
  | assigneeInvalid
  | invalidTransition (source command : String)
  | versionConflict (currentVersion : Nat)
  deriving DecidableEq, Repr

abbrev Result (α : Type) := Except DomainError α

theorem bindSource {ε α β : Type} {x : Except ε α} {f : α → Except ε β} {y : β} (bound : x >>= f = .ok y) :
    ∃ a, x = .ok a ∧ f a = .ok y := by
  cases x with
  | error e => cases bound
  | ok a => exact ⟨a,rfl,bound⟩

theorem mapMResults {ε α β : Type} {f : α → Except ε β} {xs : List α} {ys : List β} (ok : xs.mapM f = .ok ys) :
    xs.map f = ys.map .ok := by
  induction xs generalizing ys with
  | nil =>
    cases ok
    rfl
  | cons x rest ih =>
    rw [List.mapM_cons] at ok
    obtain ⟨y,first,ok⟩ := bindSource ok
    obtain ⟨later,others,ok⟩ := bindSource ok
    cases ok
    rw [List.map_cons,List.map_cons,first,ih others]

theorem mapMSource {ε α β : Type} {f : α → Except ε β} {xs : List α} {ys : List β} (ok : xs.mapM f = .ok ys) {y : β} :
    y ∈ ys ↔ ∃ x ∈ xs, f x = .ok y := by
  have same : .ok y ∈ xs.map f ↔ .ok y ∈ ys.map (Except.ok : β → Except ε β) := by rw [mapMResults ok]
  simpa only [List.mem_map,Except.ok.injEq,exists_eq_right] using same.symm

theorem mapMReturns {ε α β : Type} {f : α → Except ε β} {xs : List α} (all : ∀ x ∈ xs, ∃ y, f x = .ok y) :
    ∃ ys, xs.mapM f = .ok ys := by
  induction xs with
  | nil => exact ⟨[],rfl⟩
  | cons x rest ih =>
    obtain ⟨y,first⟩ := all x List.mem_cons_self
    obtain ⟨ys,others⟩ := ih (fun other mem => all other (List.mem_cons_of_mem x mem))
    exact ⟨y :: ys,by rw [List.mapM_cons,first,others]; rfl⟩

/- An instant is a count of milliseconds since 1970-01-01T00:00Z. -/
abbrev Instant := Int

structure EmailAddress where
  value : String
  deriving DecidableEq, Repr

namespace Text

/- WhiteSpace and LineTerminator, which `trim` strips at both ends. -/
def isSpace (c : Char) : Bool :=
  let n := c.toNat
  n = 0x20 || (0x09 ≤ n && n ≤ 0x0D) || n = 0xA0 || n = 0x1680 || (0x2000 ≤ n && n ≤ 0x200A) ||
    n = 0x2028 || n = 0x2029 || n = 0x202F || n = 0x205F || n = 0x3000 || n = 0xFEFF

def trimChars (cs : List Char) : List Char :=
  ((cs.dropWhile isSpace).reverse.dropWhile isSpace).reverse

def trim (s : String) : String := String.ofList (trimChars s.toList)

/- The length of a string counts UTF-16 code units. -/
def utf16Length (s : String) : Nat :=
  (s.toList.map (fun c => if 0x10000 ≤ c.toNat then 2 else 1)).sum

end Text
end FamilyPlatform
