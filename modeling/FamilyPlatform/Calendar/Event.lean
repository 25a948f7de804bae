import FamilyPlatform.Kernel.Expand

/-! The thing a family intends to happen. An event is timed or all-day, and never a
mixture of both; what it produces is derived from its timing, its rule and its zone. -/
namespace FamilyPlatform.Calendar
open ZonedTime

abbrev CalendarEventId := Nat
abbrev EventOccurrenceId := Nat
abbrev FamilyId := Nat
abbrev FamilyMemberId := Nat
abbrev UserId := Nat

inductive EventCategory where
  | medical | school | nursery | activity | birthday | holiday | deadline | social | household | other
  deriving DecidableEq, Repr

/- A cancelled event keeps its slot. -/
inductive EventStatus where
  | confirmed | cancelled
  deriving DecidableEq, Repr

inductive EventKind where
  | timed | allDay
  deriving DecidableEq, Repr

inductive EventTiming where
  | timed (startsAt endsAt : Instant)
  | allDay (startDate endDate : LocalDate)
  deriving DecidableEq, Repr

def EventTiming.kind : EventTiming → EventKind
  | timed _ _ => .timed
  | allDay _ _ => .allDay

inductive TimingInput where
  | timed (startsAt endsAt : Option Instant)
  | allDay (startDate endDate : LocalDate)
  deriving DecidableEq, Repr

structure TimingPatch where
  kind : Option EventKind
  startsAt : Option (Option Instant)
  endsAt : Option (Option Instant)
  startDate : Option LocalDate
  endDate : Option LocalDate
  deriving DecidableEq, Repr

/- Of an absent field nothing is changed; a field that can be cleared may hold null. -/
structure EventPatch where
  title : Option String
  description : Option (Option String)
  location : Option (Option String)
  category : Option (Option EventCategory)
  attachmentRefs : Option (List String)
  timeZone : Option String
  timing : Option TimingPatch
  recurrenceRule : Option (Option String)
  participants : Option (List FamilyMemberId)
  deriving DecidableEq, Repr

inductive ChangedFieldGroup where
  | details | timing | recurrence | participants
  deriving DecidableEq, Repr

structure CalendarEvent where
  id : CalendarEventId
  title : String
  description : Option String
  location : Option String
  category : Option EventCategory
  timing : EventTiming
  timeZone : String
  recurrenceRule : Option RecurrenceRule
  attachmentRefs : List String
  status : EventStatus
  participants : List FamilyMemberId
  materialisedThrough : Option Instant
  createdByMemberId : Option FamilyMemberId
  createdAt : Instant
  updatedAt : Instant
  deriving DecidableEq

def validateTiming : TimingInput → Result EventTiming
  | .timed (some startsAt) (some endsAt) =>
    if endsAt < startsAt then
      .error (.invalidTimeRange "The event ends before it starts: endsAt must be at or after startsAt.")
    else .ok (.timed startsAt endsAt)
  | .timed _ _ => .error (.invalidTimeRange "startsAt and endsAt must be real instants.")
  | .allDay startDate endDate =>
    if (compareLocalDates endDate startDate).any (· < 0) then
      .error (.invalidTimeRange "The event ends before it starts: endDate must be on or after startDate.")
    else .ok (.allDay startDate endDate)

def validateTimeZone (intl : Intl) (timeZone : String) : Result String :=
  if isValidTimeZone intl timeZone then .ok timeZone else .error (.unknownTimeZone timeZone)

def parseRule : Option String → Result (Option RecurrenceRule)
  | none => .ok none
  | some text => (RecurrenceRule.parse text).map some

def validateTitle (raw : String) : Result String :=
  if Text.trim raw = "" then .error (.nameRequired "An event needs a title.") else .ok (Text.trim raw)

def normaliseOptionalText (value : Option String) : Option String :=
  value.bind (fun text => if Text.trim text = "" then none else some (Text.trim text))

/- A set keeps the first of equal members in its place. -/
def uniqueMembers (members : List FamilyMemberId) : List FamilyMemberId :=
  members.foldl (fun seen member => if member ∈ seen then seen else seen ++ [member]) []

def mergeTimed (current : EventTiming) (patch : TimingPatch) : Result TimingInput :=
  let (startsAt, endsAt) : Option (Option Instant) × Option (Option Instant) := match current with
    | .timed startsAt endsAt => (some (some startsAt), some (some endsAt))
    | .allDay _ _ => (none, none)
  if patch.startDate.isSome || patch.endDate.isSome then
    .error (.invalidTimeRange "A timed event has startsAt and endsAt, not startDate and endDate.")
  else match patch.startsAt.or startsAt, patch.endsAt.or endsAt with
    | some startsAt, some endsAt => .ok (.timed startsAt endsAt)
    | _, _ => .error (.invalidTimeRange "Changing an all-day event to a timed one needs both startsAt and endsAt.")

def mergeAllDay (current : EventTiming) (patch : TimingPatch) : Result TimingInput :=
  let (startDate, endDate) : Option LocalDate × Option LocalDate := match current with
    | .timed _ _ => (none, none)
    | .allDay startDate endDate => (some startDate, some endDate)
  if patch.startsAt.isSome || patch.endsAt.isSome then
    .error (.invalidTimeRange "An all-day event has startDate and endDate, not startsAt and endsAt.")
  else match patch.startDate.or startDate, patch.endDate.or endDate with
    | some startDate, some endDate => .ok (.allDay startDate endDate)
    | _, _ => .error (.invalidTimeRange "Changing a timed event to an all-day one needs both startDate and endDate.")

def mergeTiming (current : EventTiming) (patch : TimingPatch) : Result TimingInput :=
  match patch.kind.getD current.kind with
  | .timed => mergeTimed current patch
  | .allDay => mergeAllDay current patch

def sameTiming : EventTiming → EventTiming → Bool
  | .timed startsAt endsAt, .timed startsAt' endsAt' => startsAt = startsAt' && endsAt = endsAt'
  | .allDay startDate endDate, .allDay startDate' endDate' =>
    compareLocalDates startDate startDate' = some 0 && compareLocalDates endDate endDate' = some 0
  | _, _ => false

def sameMembers (a b : List FamilyMemberId) : Bool := a.length = b.length && b.all (· ∈ a)

structure NewEvent where
  title : String
  description : Option String
  location : Option String
  category : Option EventCategory
  timing : TimingInput
  timeZone : String
  recurrenceRule : Option String
  participants : List FamilyMemberId
  attachmentRefs : List String
  deriving DecidableEq, Repr

namespace CalendarEvent

def create (intl : Intl) (params : NewEvent) (id : CalendarEventId) (createdByMemberId : FamilyMemberId)
    (now : Instant) : Result CalendarEvent := do
  let title ← validateTitle params.title
  let timing ← validateTiming params.timing
  let timeZone ← validateTimeZone intl params.timeZone
  let rule ← parseRule params.recurrenceRule
  return { id := id, title := title, description := normaliseOptionalText params.description,
           location := normaliseOptionalText params.location, category := params.category, timing := timing,
           timeZone := timeZone, recurrenceRule := rule, attachmentRefs := params.attachmentRefs,
           status := .confirmed, participants := uniqueMembers params.participants, materialisedThrough := none,
           createdByMemberId := some createdByMemberId, createdAt := now, updatedAt := now }

def isRecurring (event : CalendarEvent) : Bool := event.recurrenceRule.isSome

def isCancelled (event : CalendarEvent) : Bool := event.status = .cancelled

abbrev Edit := CalendarEvent × List ChangedFieldGroup

def noteChange (differs : Bool) (group : ChangedFieldGroup) (changed : List ChangedFieldGroup) :
    List ChangedFieldGroup :=
  if differs && group ∉ changed then changed ++ [group] else changed

def updateTitle (patch : EventPatch) (edit : Edit) : Result Edit :=
  match patch.title with
  | none => .ok edit
  | some raw => do
    let title ← validateTitle raw
    return ({ edit.1 with title := title }, noteChange (title ≠ edit.1.title) .details edit.2)

def updateDescription (patch : EventPatch) (edit : Edit) : Edit :=
  match patch.description with
  | none => edit
  | some raw =>
    let description := normaliseOptionalText raw
    ({ edit.1 with description := description }, noteChange (description ≠ edit.1.description) .details edit.2)

def updateLocation (patch : EventPatch) (edit : Edit) : Edit :=
  match patch.location with
  | none => edit
  | some raw =>
    let location := normaliseOptionalText raw
    ({ edit.1 with location := location }, noteChange (location ≠ edit.1.location) .details edit.2)

def updateCategory (patch : EventPatch) (edit : Edit) : Edit :=
  let category := patch.category.getD edit.1.category
  ({ edit.1 with category := category }, noteChange (category ≠ edit.1.category) .details edit.2)

/- The lists are compared as they read when joined by the NUL character. -/
def updateAttachments (patch : EventPatch) (edit : Edit) : Edit :=
  let refs := patch.attachmentRefs.getD edit.1.attachmentRefs
  ({ edit.1 with attachmentRefs := refs },
    noteChange ("\x00".intercalate refs ≠ "\x00".intercalate edit.1.attachmentRefs) .details edit.2)

def updateTiming (patch : EventPatch) (edit : Edit) : Result Edit :=
  match patch.timing with
  | none => .ok edit
  | some asked => do
    let merged ← mergeTiming edit.1.timing asked
    let timing ← validateTiming merged
    return ({ edit.1 with timing := timing }, noteChange (!sameTiming timing edit.1.timing) .timing edit.2)

def updateTimeZone (intl : Intl) (patch : EventPatch) (edit : Edit) : Result Edit :=
  match patch.timeZone with
  | none => .ok edit
  | some asked => do
    let timeZone ← validateTimeZone intl asked
    return ({ edit.1 with timeZone := timeZone }, noteChange (timeZone ≠ edit.1.timeZone) .timing edit.2)

def updateRecurrence (patch : EventPatch) (edit : Edit) : Result Edit :=
  match patch.recurrenceRule with
  | none => .ok edit
  | some text => do
    let rule ← parseRule text
    let differs := edit.1.recurrenceRule.map RecurrenceRule.toText ≠ rule.map RecurrenceRule.toText
    return ({ edit.1 with recurrenceRule := rule }, noteChange differs .recurrence edit.2)

def updateParticipants (patch : EventPatch) (edit : Edit) : Edit :=
  match patch.participants with
  | none => edit
  | some asked =>
    let participants := uniqueMembers asked
    ({ edit.1 with participants := participants },
      noteChange (!sameMembers participants edit.1.participants) .participants edit.2)

/- A rejected edit, and one that changes nothing, leave the event as it was. -/
def update (intl : Intl) (event : CalendarEvent) (patch : EventPatch) (now : Instant) : Result Edit := do
  let titled ← updateTitle patch (event, [])
  let detailed := updateAttachments patch (updateCategory patch (updateLocation patch (updateDescription patch titled)))
  let timed ← updateTiming patch detailed
  let zoned ← updateTimeZone intl patch timed
  let recurring ← updateRecurrence patch zoned
  let (next, changed) := updateParticipants patch recurring
  return if changed = [] then (event, []) else ({ next with updatedAt := now }, changed)

def reschedules (changed : List ChangedFieldGroup) : Bool := .timing ∈ changed || .recurrence ∈ changed

def cancel (event : CalendarEvent) (now : Instant) : Option CalendarEvent :=
  if event.isCancelled then none else some { event with status := .cancelled, updatedAt := now }

def recordMaterialisedThrough (event : CalendarEvent) (through : Option Instant) : CalendarEvent :=
  { event with materialisedThrough := through }

end CalendarEvent
end FamilyPlatform.Calendar
