import FamilyPlatform.Kernel.ZonedTime

/-! An RFC 5545 recurrence rule of the supported subset: its text, and the value
that parsing the text yields. -/
namespace FamilyPlatform
open ZonedTime

inductive JsNumber where
  | finite (n : Nat)
  | infinity
  deriving DecidableEq, Repr

namespace JsNumber

/- To 53 bits, ties to even. -/
def nearest (n : Nat) : JsNumber :=
  if n < 2 ^ 53 then .finite n
  else
    let unit := 2 ^ (n.log2 - 52)
    let up := unit < 2 * (n % unit) || (2 * (n % unit) = unit && n / unit % 2 = 1)
    let rounded := (n / unit + if up then 1 else 0) * unit
    if rounded < 2 ^ 1024 then .finite rounded else .infinity

def ofDigits (digits : List Char) : JsNumber :=
  nearest (digits.foldl (fun n c => 10 * n + (c.toNat - 48)) 0)

def atLeastOne : JsNumber → Bool
  | finite n => 1 ≤ n
  | infinity => true

/- Of the numbers with `width` digits and then zeros, the one that `n` is read back from. -/
def written (n length width : Nat) : Option Nat :=
  let unit := 10 ^ (length - width)
  let low := n / unit
  let near := if 2 * (n % unit) ≤ unit then [low,low + 1] else [low + 1,low]
  near.find? (fun m => nearest (m * unit) = .finite n)

/- The fewest digits that read back the same, with an exponent from 10^21 on. Rounded up,
they may be one more. -/
def toText : JsNumber → String
  | infinity => "Infinity"
  | finite n =>
    let length := (Nat.repr n).length
    let width := ((List.range' 1 17).find? (fun width => (written n length width).isSome)).getD length
    let digits := Nat.repr ((written n length width).getD n)
    let point := length - width + digits.length
    let rest := String.ofList ((digits.toList.drop 1).reverse.dropWhile (· = '0')).reverse
    if point ≤ 21 then digits ++ String.ofList (List.replicate (length - width) '0')
    else String.ofList (digits.toList.take 1) ++ (if rest = "" then "" else "." ++ rest) ++ "e+" ++
      Nat.repr (point - 1)

end JsNumber

inductive Frequency where
  | daily
  | weekly
  | monthly
  | yearly
  deriving DecidableEq, Repr

inductive Weekday where
  | mo
  | tu
  | we
  | th
  | fr
  | sa
  | su
  deriving DecidableEq, Repr

def Frequency.name : Frequency → String
  | daily => "DAILY"
  | weekly => "WEEKLY"
  | monthly => "MONTHLY"
  | yearly => "YEARLY"

def Weekday.name : Weekday → String
  | mo => "MO"
  | tu => "TU"
  | we => "WE"
  | th => "TH"
  | fr => "FR"
  | sa => "SA"
  | su => "SU"

def frequencies : List Frequency := [.daily,.weekly,.monthly,.yearly]

def weekdays : List Weekday := [.mo,.tu,.we,.th,.fr,.sa,.su]

structure ByDay where
  weekday : Weekday
  ordinal : Option Int
  deriving DecidableEq, Repr

inductive Until where
  | date (date : LocalDate)
  | utc (instant : Instant)
  | reading (reading : LocalDateTime)
  deriving DecidableEq, Repr

structure RecurrenceRuleProps where
  freq : Frequency
  interval : JsNumber
  count : Option JsNumber
  «until» : Option Until
  byDay : List ByDay
  byMonthDay : List Int
  byMonth : List Int
  wkst : Weekday
  deriving DecidableEq, Repr

namespace RecurrenceRule

def unsupportedParts : List String :=
  ["BYSETPOS","BYWEEKNO","BYYEARDAY","BYHOUR","BYMINUTE","BYSECOND","RDATE","EXDATE","EXRULE"]

def unsupportedFrequencies : List String := ["HOURLY","MINUTELY","SECONDLY"]

def supportedParts : List String :=
  ["FREQ","INTERVAL","COUNT","UNTIL","BYDAY","BYMONTHDAY","BYMONTH","WKST"]

def invalid {α : Type} (reason : String) : Result α := .error (.recurrenceInvalid reason)

def isDigit (c : Char) : Bool := '0' ≤ c && c ≤ '9'

def isUpper (c : Char) : Bool := 'A' ≤ c && c ≤ 'Z'

/- Of the letters outside ASCII these are the ones whose capitals are in it; the
capital of any other is never compared with a keyword, and is left as it stands. -/
def upperChar (c : Char) : List Char :=
  if c = 'ı' then ['I'] else if c = 'ſ' then ['S'] else if c = 'ß' then ['S','S']
  else if c = 'ﬀ' then ['F','F'] else if c = 'ﬁ' then ['F','I'] else if c = 'ﬂ' then ['F','L']
  else if c = 'ﬃ' then ['F','F','I'] else if c = 'ﬄ' then ['F','F','L']
  else if c = 'ﬅ' || c = 'ﬆ' then ['S','T'] else [c.toUpper]

def toUpperCase (cs : List Char) : String := String.ofList (cs.flatMap upperChar)

def digitsValue (cs : List Char) : Int := (cs.foldl (fun n c => 10 * n + (c.toNat - 48)) 0 : Nat)

def parsePositiveInteger (value : String) : Option JsNumber :=
  let number := JsNumber.ofDigits value.toList
  if value.toList ≠ [] && value.toList.all isDigit && number.atLeastOne then some number else none

def signedNumber (cs : List Char) : Option Int :=
  let (sign, digits) := match cs with
    | '+' :: rest => ((1 : Int), rest)
    | '-' :: rest => (-1, rest)
    | rest => (1, rest)
  if (digits.length = 1 || digits.length = 2) && digits.all isDigit then some (sign * digitsValue digits)
  else none

def weekdayNamed (value : String) : Option Weekday := weekdays.find? (fun day => day.name = value)

def parseUntilDate (cs : List Char) : Option LocalDate :=
  let date : LocalDate :=
    ⟨digitsValue (cs.take 4), digitsValue ((cs.drop 4).take 2), digitsValue ((cs.drop 6).take 2)⟩
  if cs.length ≠ 8 || !cs.all isDigit then none
  else if date.month < 1 || 12 < date.month || date.day < 1 then none
  else match daysInMonth date.year date.month with
    | some last => if last < date.day then none else some date
    | none => some date

def parseUntilTime (date : LocalDate) (cs : List Char) : Option LocalDateTime :=
  let reading := atTime date (digitsValue (cs.take 2)) (digitsValue ((cs.drop 2).take 2))
    (digitsValue ((cs.drop 4).take 2))
  if cs.length ≠ 6 || !cs.all isDigit then none
  else if 23 < reading.hour || 59 < reading.minute || 59 < reading.second then none
  else some reading

def parseUntil (value : String) : Option Until := do
  let date ← parseUntilDate (value.toList.take 8)
  match value.toList.drop 8 with
  | [] => some (.date date)
  | 'T' :: time =>
    let reading ← parseUntilTime date (time.take 6)
    match time.drop 6 with
    | [] => some (.reading reading)
    | ['Z'] =>
      -- `Date.UTC` itself, with its years 1900 to 1999 for 0 to 99.
      let instant ← dateUtc reading.year reading.month reading.day reading.hour reading.minute reading.second
      some (.utc instant)
    | _ => none
  | _ => none

def quoted (cs : List Char) : String := "\"" ++ String.ofList cs ++ "\""

def propertyMatch (body : List Char) : Option (List Char × List Char) :=
  let letter := fun c : Char => c.isAlpha || c = '-'
  match body.takeWhile letter, body.dropWhile letter with
  | c :: name, ':' :: rest => some (c :: name, rest)
  | _, _ => none

def bodyOf (text : String) : Result (List Char) :=
  let body := Text.trimChars text.toList
  if body = [] then invalid "A recurrence rule cannot be empty."
  else match propertyMatch body with
    | none => .ok body
    | some (name, rest) =>
      let property := toUpperCase name
      if property = "RDATE" || property = "EXDATE" || property = "EXRULE" then
        .error (.recurrenceUnsupported property)
      else if property ≠ "RRULE" then invalid ("Expected an RRULE, found the " ++ property ++ " property.")
      else .ok rest

abbrev Parts := List (String × String)

def partNamed (seen : Parts) (name : String) : Option String := seen.lookup name

def readParts (seen : Parts) : List (List Char) → Result Parts
  | [] => .ok seen
  | segment :: rest =>
    let before := segment.takeWhile (· ≠ '=')
    let name := toUpperCase before
    let value := toUpperCase (segment.drop (before.length + 1))
    if before = [] || before = segment then invalid (quoted segment ++ " is not a NAME=VALUE pair.")
    else if value = "" then invalid (name ++ " has no value.")
    else if (partNamed seen name).isSome then invalid (name ++ " appears more than once.")
    else readParts (seen ++ [(name, value)]) rest

def checkNames (seen : Parts) : Result Unit :=
  match (seen.map Prod.fst).find? (· ∈ unsupportedParts) with
  | some name => .error (.recurrenceUnsupported name)
  | none => match (seen.map Prod.fst).find? (· ∉ supportedParts) with
    | some name => invalid (name ++ " is not an RFC 5545 rule part.")
    | none => .ok ()

def parseFreq (seen : Parts) : Result Frequency :=
  match partNamed seen "FREQ" with
  | none => invalid "FREQ is required."
  | some value =>
    if value ∈ unsupportedFrequencies then .error (.recurrenceUnsupported ("FREQ=" ++ value))
    else match frequencies.find? (fun freq => freq.name = value) with
      | none => invalid ("FREQ=" ++ value ++ " is not a recurrence frequency.")
      | some freq => .ok freq

def parseInterval (seen : Parts) : Result JsNumber :=
  match partNamed seen "INTERVAL" with
  | none => .ok (.finite 1)
  | some value => match parsePositiveInteger value with
    | none => invalid "INTERVAL must be a positive integer."
    | some interval => .ok interval

def parseCount (seen : Parts) : Result (Option JsNumber) :=
  match partNamed seen "COUNT" with
  | none => .ok none
  | some value => match parsePositiveInteger value with
    | none => invalid "COUNT must be a positive integer."
    | some count => .ok (some count)

def parseUntilPart (seen : Parts) : Result (Option Until) :=
  match partNamed seen "UNTIL" with
  | none => .ok none
  | some value => match parseUntil value with
    | none => invalid "UNTIL must be a DATE or DATE-TIME value."
    | some moment => .ok (some moment)

def items (value : String) : List (List Char) := value.toList.splitOn ','

def byDayMatch (item : List Char) : Option (Option Int × Weekday) := do
  let letters := item.drop (item.length - 2)
  let before := item.take (item.length - 2)
  let weekday ← if letters.length = 2 && letters.all isUpper then weekdayNamed (String.ofList letters) else none
  if before = [] then some (none, weekday)
  else do
    let ordinal ← signedNumber before
    some (some ordinal, weekday)

def parseByDayItem (freq : Frequency) (item : List Char) : Result ByDay :=
  match byDayMatch item with
  | none => invalid ("BYDAY value " ++ quoted item ++ " is not a weekday.")
  | some (none, weekday) => .ok ⟨weekday,none⟩
  | some (some ordinal, weekday) =>
    if ordinal = 0 || 53 < ordinal.natAbs then
      invalid ("BYDAY ordinal in " ++ quoted item ++ " must be between -53 and 53, not zero.")
    else if freq = .daily || freq = .weekly then
      invalid "BYDAY ordinals are only meaningful with FREQ=MONTHLY or YEARLY."
    else if freq = .monthly && 5 < ordinal.natAbs then
      invalid "A monthly BYDAY ordinal must be between -5 and 5."
    else .ok ⟨weekday,some ordinal⟩

def parseByDay (freq : Frequency) (seen : Parts) : Result (List ByDay) :=
  match partNamed seen "BYDAY" with
  | none => .ok []
  | some value => (items value).mapM (parseByDayItem freq)

def parseByMonthDayItem (item : List Char) : Result Int :=
  match signedNumber item with
  | none => invalid ("BYMONTHDAY value " ++ quoted item ++ " is not a day.")
  | some day =>
    if day = 0 || 31 < day.natAbs then invalid "BYMONTHDAY must be between -31 and 31, not zero."
    else .ok day

def parseByMonthDay (freq : Frequency) (seen : Parts) : Result (List Int) :=
  match partNamed seen "BYMONTHDAY" with
  | none => .ok []
  | some value =>
    if freq = .weekly then invalid "BYMONTHDAY cannot be used with FREQ=WEEKLY."
    else (items value).mapM parseByMonthDayItem

def parseByMonthItem (item : List Char) : Result Int :=
  let month := digitsValue item
  if !((item.length = 1 || item.length = 2) && item.all isDigit) || month < 1 || 12 < month then
    invalid ("BYMONTH value " ++ quoted item ++ " is not a month.")
  else .ok month

def parseByMonth (seen : Parts) : Result (List Int) :=
  match partNamed seen "BYMONTH" with
  | none => .ok []
  | some value => (items value).mapM parseByMonthItem

def parseWkst (seen : Parts) : Result Weekday :=
  match partNamed seen "WKST" with
  | none => .ok .mo
  | some value => match weekdayNamed value with
    | none => invalid ("WKST=" ++ value ++ " is not a weekday.")
    | some wkst => .ok wkst

def checkSingle (count : Option JsNumber) (moment : Option Until) : Result Unit :=
  if count.isSome && moment.isSome then invalid "COUNT and UNTIL cannot both be present (RFC 5545 §3.3.10)."
  else .ok ()

def parseProps (text : String) : Result RecurrenceRuleProps := do
  let body ← bodyOf text
  let seen ← readParts [] (body.splitOn ';')
  checkNames seen
  let freq ← parseFreq seen
  let interval ← parseInterval seen
  let count ← parseCount seen
  let moment ← parseUntilPart seen
  checkSingle count moment
  let byDay ← parseByDay freq seen
  let byMonthDay ← parseByMonthDay freq seen
  let byMonth ← parseByMonth seen
  let wkst ← parseWkst seen
  return ⟨freq,interval,count,moment,byDay,byMonthDay,byMonth,wkst⟩

end RecurrenceRule

/- What parsing has checked of a rule's parts. -/
structure RecurrenceRuleProps.Parsed (p : RecurrenceRuleProps) : Prop where
  interval : p.interval.atLeastOne
  count : ∀ count, p.count = some count → count.atLeastOne
  single : p.count = none ∨ p.«until» = none
  ordinal : ∀ day ∈ p.byDay, ∀ n, day.ordinal = some n →
    n ≠ 0 ∧ n.natAbs ≤ 53 ∧ p.freq ≠ .daily ∧ p.freq ≠ .weekly ∧ (p.freq = .monthly → n.natAbs ≤ 5)
  monthDay : ∀ day ∈ p.byMonthDay, day ≠ 0 ∧ day.natAbs ≤ 31
  weekly : p.freq = .weekly → p.byMonthDay = []
  month : ∀ month ∈ p.byMonth, 1 ≤ month ∧ month ≤ 12

/- The constructor is private: a rule comes from parsing, and only from it. -/
structure RecurrenceRule extends RecurrenceRuleProps where
  parsed : toRecurrenceRuleProps.Parsed
  deriving DecidableEq

namespace RecurrenceRule

theorem positiveSource {value : String} {n : JsNumber} (read : parsePositiveInteger value = some n) :
    n.atLeastOne := by
  simp only [parsePositiveInteger] at read
  split at read <;> cases read
  rename_i ok
  simp only [Bool.and_eq_true] at ok
  exact ok.2

theorem intervalSource {seen : Parts} {n : JsNumber} (read : parseInterval seen = .ok n) : n.atLeastOne := by
  simp only [parseInterval] at read
  split at read
  · cases read
    rfl
  · split at read <;> cases read
    exact positiveSource (by assumption)

theorem countSource {seen : Parts} {found : Option JsNumber} (read : parseCount seen = .ok found) :
    ∀ n, found = some n → n.atLeastOne := by
  simp only [parseCount] at read
  split at read
  · cases read
    simp
  · split at read <;> cases read
    rintro n ⟨⟩
    exact positiveSource (by assumption)

theorem byDayItemSource {freq : Frequency} {item : List Char} {day : ByDay}
    (read : parseByDayItem freq item = .ok day) : ∀ n, day.ordinal = some n →
    n ≠ 0 ∧ n.natAbs ≤ 53 ∧ freq ≠ .daily ∧ freq ≠ .weekly ∧ (freq = .monthly → n.natAbs ≤ 5) := by
  simp only [parseByDayItem] at read
  split at read
  · cases read
  · cases read
    simp
  · split at read
    · cases read
    split at read
    · cases read
    split at read
    · cases read
    cases read
    rintro n ⟨⟩
    rename_i inYear wide inMonth
    simp only [Bool.or_eq_true,decide_eq_true_eq,not_or,not_lt] at inYear wide
    simp only [Bool.and_eq_true,decide_eq_true_eq,not_and,not_lt] at inMonth
    exact ⟨inYear.1,inYear.2,wide.1,wide.2,inMonth⟩

theorem byDaySource {freq : Frequency} {seen : Parts} {days : List ByDay}
    (read : parseByDay freq seen = .ok days) : ∀ day ∈ days, ∀ n, day.ordinal = some n →
    n ≠ 0 ∧ n.natAbs ≤ 53 ∧ freq ≠ .daily ∧ freq ≠ .weekly ∧ (freq = .monthly → n.natAbs ≤ 5) := by
  simp only [parseByDay] at read
  split at read
  · cases read
    simp
  · intro day mem
    obtain ⟨item,-,ok⟩ := (mapMSource read).mp mem
    exact byDayItemSource ok

theorem byMonthDaySource {freq : Frequency} {seen : Parts} {days : List Int}
    (read : parseByMonthDay freq seen = .ok days) :
    (∀ day ∈ days, day ≠ 0 ∧ day.natAbs ≤ 31) ∧ (freq = .weekly → days = []) := by
  simp only [parseByMonthDay] at read
  split at read
  · cases read
    simp
  · split at read
    · cases read
    refine ⟨?_,fun weekly => absurd weekly (by assumption)⟩
    intro day mem
    obtain ⟨item,-,ok⟩ := (mapMSource read).mp mem
    simp only [parseByMonthDayItem] at ok
    split at ok
    · cases ok
    split at ok <;> cases ok
    rename_i bounded
    simpa using bounded

theorem byMonthSource {seen : Parts} {months : List Int} (read : parseByMonth seen = .ok months) :
    ∀ month ∈ months, 1 ≤ month ∧ month ≤ 12 := by
  simp only [parseByMonth] at read
  split at read
  · cases read
    simp
  · intro month mem
    obtain ⟨item,-,ok⟩ := (mapMSource read).mp mem
    simp only [parseByMonthItem] at ok
    split at ok <;> cases ok
    rename_i bounded
    simp only [Bool.or_eq_true,decide_eq_true_eq,not_or,not_lt] at bounded
    exact ⟨bounded.1.2,bounded.2⟩

theorem parsePropsParsed {text : String} {p : RecurrenceRuleProps} (read : parseProps text = .ok p) :
    p.Parsed := by
  unfold parseProps at read
  obtain ⟨body,-,read⟩ := bindSource read
  obtain ⟨seen,-,read⟩ := bindSource read
  obtain ⟨-,-,read⟩ := bindSource read
  obtain ⟨freq,-,read⟩ := bindSource read
  obtain ⟨interval,gap,read⟩ := bindSource read
  obtain ⟨count,counted,read⟩ := bindSource read
  obtain ⟨moment,-,read⟩ := bindSource read
  obtain ⟨_,single,read⟩ := bindSource read
  obtain ⟨byDay,days,read⟩ := bindSource read
  obtain ⟨byMonthDay,monthDays,read⟩ := bindSource read
  obtain ⟨byMonth,months,read⟩ := bindSource read
  obtain ⟨wkst,-,read⟩ := bindSource read
  cases read
  refine ⟨intervalSource gap,countSource counted,?_,byDaySource days,(byMonthDaySource monthDays).1,
    (byMonthDaySource monthDays).2,byMonthSource months⟩
  cases count <;> cases moment <;> simp [checkSingle,invalid] at single ⊢

def parse (text : String) : Result RecurrenceRule :=
  match read : parseProps text with
  | .ok p => .ok ⟨p,parsePropsParsed read⟩
  | .error e => .error e

theorem parseSource {text : String} {rule : RecurrenceRule} (read : parse text = .ok rule) :
    parseProps text = .ok rule.toRecurrenceRuleProps := by
  unfold parse at read
  split at read <;> cases read
  assumption

def padded (n : Int) (width : Nat) : String :=
  let digits := toString n
  String.ofList (List.replicate (width - digits.length) '0') ++ digits

def dateText (date : LocalDate) : String := padded date.year 4 ++ padded date.month 2 ++ padded date.day 2

def timeText (reading : LocalDateTime) : String :=
  "T" ++ padded reading.hour 2 ++ padded reading.minute 2 ++ padded reading.second 2

def untilText : Until → String
  | .date date => "UNTIL=" ++ dateText date
  | .utc instant =>
    let reading := readingOf (instant / 1000)
    "UNTIL=" ++ dateText reading.toDate ++ timeText reading ++ "Z"
  | .reading reading => "UNTIL=" ++ dateText reading.toDate ++ timeText reading

def byDayText (day : ByDay) : String :=
  (match day.ordinal with
    | none => ""
    | some n => toString n) ++ day.weekday.name

def toText (rule : RecurrenceRule) : String :=
  let parts := ["FREQ=" ++ rule.freq.name]
    ++ (if rule.interval ≠ .finite 1 then ["INTERVAL=" ++ rule.interval.toText] else [])
    ++ rule.count.toList.map (fun count => "COUNT=" ++ count.toText)
    ++ rule.until.toList.map untilText
    ++ (if rule.byMonth ≠ [] then ["BYMONTH=" ++ ",".intercalate (rule.byMonth.map toString)] else [])
    ++ (if rule.byMonthDay ≠ [] then ["BYMONTHDAY=" ++ ",".intercalate (rule.byMonthDay.map toString)] else [])
    ++ (if rule.byDay ≠ [] then ["BYDAY=" ++ ",".intercalate (rule.byDay.map byDayText)] else [])
    ++ (if rule.wkst ≠ .mo then ["WKST=" ++ rule.wkst.name] else [])
  ";".intercalate parts

end RecurrenceRule
end FamilyPlatform
