import FamilyPlatform.Lib.Civil
import FamilyPlatform.Lib.Offsets
import FamilyPlatform.Kernel.Values

/-! Local wall-clock readings, instants, and the way between them in a zone. A date
whose fields are NaN, and an instant outside the range of `Date`, is `none`. -/
namespace FamilyPlatform

abbrev LocalDate := Civil.Date

structure LocalDateTime extends LocalDate where
  hour : Int
  minute : Int
  second : Int
  deriving DecidableEq, Repr

namespace ZonedTime

def msPerDay : Int := 86400000

/- Outside a hundred million days of the epoch there is no time value. -/
def timeClip (ms : Int) : Option Int :=
  if -(100000000 * msPerDay) ≤ ms ∧ ms ≤ 100000000 * msPerDay then some ms else none

/- A month beyond the year, or a day beyond the month, counts on. -/
def makeDay (year month day : Int) : Int :=
  Civil.dayNumber (year + (month - 1) / 12) ((month - 1) % 12 + 1) day

/- `Date.UTC` takes the years 0 to 99 for 1900 to 1999. -/
def dateUtc (year month day hour minute second : Int) : Option Int :=
  let full := if 0 ≤ year ∧ year ≤ 99 then 1900 + year else year
  timeClip (makeDay full month day * msPerDay + hour * 3600000 + minute * 60000 + second * 1000)

def setUtcFullYear (ms year : Int) : Option Int :=
  let date := Civil.dateOf (ms / msPerDay)
  timeClip (makeDay year date.month date.day * msPerDay + ms % msPerDay)

def utcDate (ms : Int) : LocalDate := Civil.dateOf (ms / msPerDay)

def localAsUtcMs (l : LocalDateTime) : Option Int := do
  let ms ← dateUtc l.year l.month l.day l.hour l.minute l.second
  if 0 ≤ l.year ∧ l.year < 100 then setUtcFullYear ms l.year else some ms

def atTime (date : LocalDate) (hour minute second : Int) : LocalDateTime :=
  { date with hour := hour, minute := minute, second := second }

def toEpochDay (date : LocalDate) : Option Int :=
  (localAsUtcMs (atTime date 0 0 0)).map (fun ms => ms / msPerDay)

def fromEpochDay (epochDay : Int) : Option LocalDate :=
  (timeClip (epochDay * msPerDay)).map utcDate

def addDays (date : LocalDate) (days : Int) : Option LocalDate := do
  let epochDay ← toEpochDay date
  fromEpochDay (epochDay + days)

/- A comparison is a difference; one with NaN is neither above nor below 0. -/
def compareLocalDates (a b : LocalDate) : Option Int := do
  let left ← toEpochDay a
  let right ← toEpochDay b
  some (left - right)

def compareLocalDateTimes (a b : LocalDateTime) : Option Int := do
  let left ← localAsUtcMs a
  let right ← localAsUtcMs b
  some (left - right)

def daysInMonth (year month : Int) : Option Int :=
  (dateUtc year (month + 1) 0 0 0 0).map (fun ms => (utcDate ms).day)

/- 0 = Monday … 6 = Sunday. -/
def isoWeekdayIndex (date : LocalDate) : Option Int :=
  (toEpochDay date).map (fun epochDay => (((epochDay + 4) % 7) + 6) % 7)

/-- What the runtime knows of a zone: the seconds east of UTC in force at a second
since the epoch, at most 15 hours. They change by less than a day, and not twice within
48 hours. -/
structure Zone where
  offsetAt : Int → Int
  steady : Offsets.Steady offsetAt 86400 54000

/- The zones by their names; a formatter for any other name is a RangeError. -/
abbrev Intl := String → Option Zone

def Zone.fixed (offset : Int) (low : -54000 ≤ offset) (high : offset ≤ 54000) : Zone where
  offsetAt _ := offset
  steady := ⟨by decide,fun _ => ⟨low,high⟩,fun _ => by simp,fun s => ⟨s,fun _ _ _ => by simp⟩⟩

def Zone.utc : Zone := .fixed 0 (by decide) (by decide)

def isValidTimeZone (intl : Intl) (timeZone : String) : Bool :=
  let sign := match timeZone.toList with
    | c :: _ => c = '+' || c = '-'
    | [] => false
  Text.trim timeZone ≠ "" && !sign && (intl timeZone).isSome

variable (zone : Zone)

def readingOf (second : Int) : LocalDateTime :=
  let within := second % 86400
  atTime (Civil.dateOf (second / 86400)) (within / 3600) (within % 3600 / 60) (within % 60)

/- Formatting an invalid date is a RangeError. -/
def instantToLocal (instant : Instant) : Option LocalDateTime :=
  (timeClip instant).map (fun ms => readingOf (ms / 1000 + zone.offsetAt (ms / 1000)))

/- Here in milliseconds, so that an offset of a part of a minute stays whole. -/
def offsetMsAt (instant : Instant) : Option Int := do
  let wholeSecond := instant / 1000 * 1000
  let reading ← instantToLocal zone wholeSecond
  let ms ← localAsUtcMs reading
  some (ms - wholeSecond)

def localToInstant (reading : LocalDateTime) : Option Instant := do
  let pivot ← localAsUtcMs reading
  let offsetBefore ← offsetMsAt zone (pivot - msPerDay)
  let offsetAfter ← offsetMsAt zone (pivot + msPerDay)
  let first := pivot - offsetBefore
  let second := pivot - offsetAfter
  let readsFirst ← instantToLocal zone first
  let readsSecond ← instantToLocal zone second
  match decide (readsFirst = reading), decide (readsSecond = reading) with
  | true, true => some (min first second)
  | true, false => some first
  | false, true => some second
  -- The reading falls in a gap.
  | false, false => some first

def startOfDay (date : LocalDate) : Option Instant := localToInstant zone (atTime date 0 0 0)

end ZonedTime
end FamilyPlatform
