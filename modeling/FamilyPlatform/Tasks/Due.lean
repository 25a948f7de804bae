import FamilyPlatform.Kernel.Expand

/-! When a task is due. A time of day never comes without a date, nor a date without a zone. -/
namespace FamilyPlatform.Tasks
open ZonedTime RecurrenceRule

structure LocalTime where
  hour : Int
  minute : Int
  deriving DecidableEq, Repr

inductive Due where
  | date (date : LocalDate) (timeZone : String)
  | dateTime (date : LocalDate) (time : LocalTime) (timeZone : String)
  deriving DecidableEq, Repr

inductive DueKind where
  | none | date | dateTime
  deriving DecidableEq, Repr

namespace Due

def timeZone : Due → String
  | date _ timeZone | dateTime _ _ timeZone => timeZone

def localDate : Due → LocalDate
  | date day _ | dateTime day _ _ => day

def localTime : Due → Option LocalTime
  | date _ _ => none
  | dateTime _ time _ => some time

def kind : Due → DueKind
  | date _ _ => .date
  | dateTime _ _ _ => .dateTime

end Due

inductive DueInput where
  | date (date timeZone : String)
  | dateTime (date time timeZone : String)
  deriving DecidableEq, Repr

def DueInput.timeZone : DueInput → String
  | date _ timeZone | dateTime _ _ timeZone => timeZone

def DueInput.day : DueInput → String
  | date day _ | dateTime day _ _ => day

def parseLocalDate (value : String) : Option LocalDate :=
  match value.toList with
  | [y1,y2,y3,y4,'-',m1,m2,'-',d1,d2] =>
    let date : LocalDate := ⟨digitsValue [y1,y2,y3,y4],digitsValue [m1,m2],digitsValue [d1,d2]⟩
    if !([y1,y2,y3,y4,m1,m2,d1,d2].all isDigit) then none
    else if date.month < 1 || 12 < date.month || date.day < 1 then none
    else match daysInMonth date.year date.month with
      | some last => if last < date.day then none else some date
      | none => some date
  | _ => none

def parseLocalTime (value : String) : Option LocalTime :=
  match value.toList with
  | [h1,h2,':',m1,m2] =>
    let time : LocalTime := ⟨digitsValue [h1,h2],digitsValue [m1,m2]⟩
    if !([h1,h2,m1,m2].all isDigit) || 23 < time.hour || 59 < time.minute then none else some time
  | _ => none

def parseDue (intl : Intl) (input : DueInput) : Result Due :=
  if !isValidTimeZone intl input.timeZone then .error (.unknownTimeZone input.timeZone)
  else match parseLocalDate input.day with
    | none => .error (.invalidDue "date" "Not a calendar date (YYYY-MM-DD).")
    | some date => match input with
      | .date _ timeZone => .ok (.date date timeZone)
      | .dateTime _ time timeZone => match parseLocalTime time with
        | none => .error (.invalidDue "time" "Not a time of day (HH:mm).")
        | some time => .ok (.dateTime date time timeZone)

/- A date alone is due by its end, the start of the next day. -/
def dueMomentOf (intl : Intl) (due : Due) : Option Instant := do
  let zone ← intl due.timeZone
  match due with
  | .date date _ => do
    let next ← addDays date 1
    startOfDay zone next
  | .dateTime date time _ => localToInstant zone (atTime date time.hour time.minute 0)

def dueLocalDateTime : Due → LocalDateTime
  | .date date _ => atTime date 0 0 0
  | .dateTime date time _ => atTime date time.hour time.minute 0

def sameDue (intl : Intl) : Option Due → Option Due → Option Bool
  | some a, some b => do
    let left ← dueMomentOf intl a
    let right ← dueMomentOf intl b
    some (left = right && a.kind = b.kind && a.timeZone = b.timeZone)
  | none, none => some true
  | _, _ => some false

def everywhereUtc : Intl := fun _ => some Zone.utc

end FamilyPlatform.Tasks
