import FamilyPlatform.Kernel.RuleRoundTrip
import FamilyPlatform.Tasks.Rows

/-! A task that is stored and loaded again. The dates go through `Date.UTC`, and the rule
through its text. -/
namespace FamilyPlatform.Tasks
open ZonedTime RecurrenceRule

theorem parseLocalDateSource {value : String} {date : LocalDate} (read : parseLocalDate value = some date) :
    UntilDate date := by
  unfold parseLocalDate at read
  split at read
  · rename_i y1 y2 y3 y4 m1 m2 d1 d2 _
    exact (@untilDateSource [y1,y2,y3,y4,m1,m2,d1,d2] date read).1
  · cases read

structure LocalTime.Valid (time : LocalTime) : Prop where
  hour : 0 ≤ time.hour ∧ time.hour ≤ 23
  minute : 0 ≤ time.minute ∧ time.minute ≤ 59

theorem parseLocalTimeSource {value : String} {time : LocalTime} (read : parseLocalTime value = some time) :
    time.Valid := by
  unfold parseLocalTime at read
  split at read
  · rename_i h1 h2 m1 m2 _
    simp only at read
    split at read <;> cases read
    rename_i bounds
    simp only [Bool.or_eq_true,Bool.not_eq_true',decide_eq_true_eq,not_or,not_lt,Bool.not_eq_false,List.all_cons,
      Bool.and_eq_true] at bounds
    obtain ⟨⟨⟨first,second,third,fourth,-⟩,hour⟩,minute⟩ := bounds
    exact ⟨⟨(digitsBounds (by simp [first,second])).1,hour⟩,⟨(digitsBounds (by simp [third,fourth])).1,minute⟩⟩
  · cases read

structure Accepted (intl : Intl) (due : Due) : Prop where
  zone : (intl due.timeZone).isSome = true
  date : UntilDate due.localDate
  time : ∀ time, due.localTime = some time → time.Valid

theorem parseDueSource {intl : Intl} {input : DueInput} {due : Due} (read : parseDue intl input = .ok due) :
    Accepted intl due := by
  unfold parseDue at read
  split at read
  · cases read
  rename_i zone
  simp only [isValidTimeZone,Bool.not_eq_true',Bool.not_eq_false,Bool.and_eq_true] at zone
  split at read
  · cases read
  rename_i date found
  split at read
  · cases read
    exact ⟨zone.2,parseLocalDateSource found,by simp [Due.localTime]⟩
  · split at read <;> cases read
    rename_i time there
    exact ⟨zone.2,parseLocalDateSource found,fun _ is => Option.some.inj is ▸ parseLocalTimeSource there⟩

theorem dueMomentAccepted {intl : Intl} {due : Due} (accepted : Accepted intl due) :
    ∃ moment, dueMomentOf intl due = some moment := by
  obtain ⟨named,date,time⟩ := accepted
  obtain ⟨zone,there⟩ := Option.isSome_iff_exists.mp named
  have real := date.written
  obtain ⟨low,high⟩ := yearsWithin real date.year.1 date.year.2
  cases due with
  | date day timeZone =>
    have midnight : ∀ d : LocalDate, LocalDateTime.Clock (atTime d 0 0 0) := by
      intro d
      simp [LocalDateTime.Clock,atTime]
    obtain ⟨ms,utc,start,stop⟩ := localAsUtcMsModerate (l := atTime day 0 0 0)
      ⟨real,midnight day,le_trans (by decide) low,le_trans high (by decide)⟩
    simp only [Due.localDate,atTime] at low high start stop
    have least : -720000 ≤ ms / msPerDay := by unfold msPerDay at *; omega
    have most : ms / msPerDay ≤ 2932897 := by unfold msPerDay at *; omega
    have next : addDays day 1 = some (Civil.dateOf (ms / msPerDay + 1)) := by
      simp only [addDays,toEpochDay,utc,Option.map_some,bind,Option.bind_some]
      exact fromEpochDayReal (by unfold latest; omega) (by unfold latest; omega)
    obtain ⟨i,found⟩ := @localToInstantModerate zone (atTime (Civil.dateOf (ms / msPerDay + 1)) 0 0 0)
      (Civil.dateOfReal _) (midnight _) (by simp only [atTime,Civil.numberOfDate]; omega)
      (by simp only [atTime,Civil.numberOfDate]; omega)
    exact ⟨i,by simp only [dueMomentOf,there,next,startOfDay,found,bind,Option.bind_some]⟩
  | dateTime day at_ timeZone =>
    obtain ⟨hour,minute⟩ := time at_ rfl
    obtain ⟨i,found⟩ := @localToInstantModerate zone (atTime day at_.hour at_.minute 0) real
      ⟨hour.1,hour.2,minute.1,minute.2,Int.le_refl 0,show (0 : Int) ≤ 59 by decide⟩
      (le_trans (by decide) low) (le_trans high (by decide))
    exact ⟨i,by simp only [dueMomentOf,there,found,bind,Option.bind_some]⟩

theorem localDateToDbAccepted {date : LocalDate} (valid : UntilDate date) :
    localDateToDb date = some ⟨fullYear date.year,date.month,date.day⟩ := by
  have midnight : LocalDateTime.Clock (atTime date 0 0 0) := by simp [LocalDateTime.Clock,atTime]
  have utc := @dateUtcFull (atTime date 0 0 0) valid.year.1 valid.year.2 valid.real midnight
  have whole : (Civil.dayNumber (fullYear date.year) date.month date.day * msPerDay + clockMs (atTime date 0 0 0)) /
      msPerDay = Civil.Date.number ⟨fullYear date.year,date.month,date.day⟩ := by
    simp only [clockMs,atTime,Civil.Date.number,msPerDay]
    omega
  simp only [atTime] at utc whole
  rw [localDateToDb,utc,Option.map_some,utcDate,whole,Civil.dateOfNumber valid.real]

theorem localDateTimeToDbAccepted {reading : LocalDateTime} (valid : UntilDate reading.toDate)
    (clock : LocalDateTime.Clock reading) : localDateTimeToDb reading =
      some (atTime ⟨fullYear reading.year,reading.month,reading.day⟩ reading.hour reading.minute reading.second) := by
  have utc := dateUtcFull valid.year.1 valid.year.2 valid.real clock
  rw [localDateTimeToDb,utc,Option.map_some,utcReading valid clock utc]

theorem localTimeToDbAccepted {time : LocalTime} (valid : time.Valid) : localTimeToDb time = some time := by
  have clock : LocalDateTime.Clock (atTime ⟨1970,1,1⟩ time.hour time.minute 0) :=
    ⟨valid.hour.1,valid.hour.2,valid.minute.1,valid.minute.2,Int.le_refl 0,show (0 : Int) ≤ 59 by decide⟩
  have date : UntilDate ⟨1970,1,1⟩ := ⟨by decide,by decide,by decide,fun length found => by
    rw [daysInMonthFull (by decide) (by decide) (by decide) (by decide)] at found
    cases found
    decide⟩
  have utc := @dateUtcFull (atTime ⟨1970,1,1⟩ time.hour time.minute 0) date.year.1 date.year.2 date.real clock
  have reads := @utcReading (atTime ⟨1970,1,1⟩ time.hour time.minute 0) _ date clock utc
  simp only [atTime] at utc reads
  simp only [localTimeToDb,utc,Option.map_some,reads]

def FromWire (intl : Intl) (due : Due) : Prop := ∃ input, parseDue intl input = .ok due

inductive Produced (intl : Intl) : Task → Prop
  | create {params : NewTask} {id : TaskId} {familyId : FamilyId} {newSeriesId : TaskSeriesId}
      {member : FamilyMemberId} {t : Task} (due : ∀ due, params.due = some due → FromWire intl due)
      (made : Task.create params id familyId newSeriesId member = .ok t) : Produced intl t
  | update {t next : Task} {patch : TaskPatch} {newSeriesId : TaskSeriesId} {changed : List ChangedFieldGroup}
      (before : Produced intl t) (due : ∀ due, patch.due = some (some due) → FromWire intl due)
      (made : t.update intl patch newSeriesId = some (.ok (next,changed))) : Produced intl next
  | successor {head : Task} {id : TaskId} {due : Due} {member : FamilyMemberId} (before : Produced intl head)
      (wire : FromWire intl due) : Produced intl (Task.successorOf id head due member)
  | complete {t next : Task} {member : FamilyMemberId} {now : Instant} (before : Produced intl t)
      (made : t.complete member now = .ok next) : Produced intl next
  | cancel {t next : Task} {member : FamilyMemberId} {now : Instant} (before : Produced intl t)
      (made : t.cancel member now = .ok next) : Produced intl next
  | reopen {t next : Task} (before : Produced intl t) (made : t.reopen = .ok next) : Produced intl next
  | assign {t next : Task} {member : FamilyMemberId} (before : Produced intl t)
      (made : t.assign member = .ok (some next)) : Produced intl next
  | unassign {t next : Task} {member : FamilyMemberId} (before : Produced intl t)
      (made : t.unassign member = .ok (some next)) : Produced intl next
  | relinquish {t : Task} (before : Produced intl t) : Produced intl t.relinquishHead
  | report {t next : Task} (before : Produced intl t) (made : t.recordOverdueReported intl = some next) :
      Produced intl next

structure Authored (intl : Intl) (t : Task) : Prop where
  due : ∀ due, t.due = some due → Accepted intl due
  rule : ∀ rule, t.recurrenceRule = some rule → Exact rule
  anchor : ∀ anchor, t.recurrenceAnchor = some anchor → UntilDate anchor.toDate ∧ LocalDateTime.Clock anchor

theorem Accepted.reading {intl : Intl} {due : Due} (accepted : Accepted intl due) :
    UntilDate (dueLocalDateTime due).toDate ∧ LocalDateTime.Clock (dueLocalDateTime due) := by
  obtain ⟨-,date,time⟩ := accepted
  cases due with
  | date day timeZone => exact ⟨date,by simp [LocalDateTime.Clock,dueLocalDateTime,atTime]⟩
  | dateTime day at_ timeZone =>
    obtain ⟨hour,minute⟩ := time at_ rfl
    exact ⟨date,hour.1,hour.2,minute.1,minute.2,Int.le_refl 0,show (0 : Int) ≤ 59 by decide⟩

theorem Authored.same {intl : Intl} {t next : Task} (authored : Authored intl t) (due : next.due = t.due)
    (rule : next.recurrenceRule = t.recurrenceRule) (anchor : next.recurrenceAnchor = t.recurrenceAnchor) :
    Authored intl next :=
  ⟨due ▸ authored.due,rule ▸ authored.rule,anchor ▸ authored.anchor⟩

theorem parseRuleExact {text : Option String} {rule : RecurrenceRule} (read : parseRule text = .ok (some rule)) :
    Exact rule := by
  cases text with
  | none => cases read
  | some text =>
    simp only [parseRule] at read
    cases parsed : RecurrenceRule.parse text with
    | error e =>
      rw [parsed] at read
      cases read
    | ok found =>
      rw [parsed] at read
      cases read
      exact parseExact parsed

theorem createdAuthored {intl : Intl} {params : NewTask} {id : TaskId} {familyId : FamilyId} {series : TaskSeriesId}
    {member : FamilyMemberId} {t : Task} (due : ∀ due, params.due = some due → Accepted intl due)
    (made : Task.create params id familyId series member = .ok t) : Authored intl t := by
  obtain ⟨-,-,-,created⟩ := Task.createSource made
  have dues : ∀ due, t.due = some due → Accepted intl due := fun d is => due d (created.due ▸ is)
  refine ⟨dues,fun rule is => parseRuleExact (is ▸ created.rule),fun anchor is => ?_⟩
  rw [created.anchor] at is
  split at is
  · obtain ⟨d,there,rfl⟩ := Option.map_eq_some_iff.mp is
    exact (dues d there).reading
  · cases is

theorem updatedAuthored {intl : Intl} {t next : Task} {patch : TaskPatch} {n : TaskSeriesId}
    {changed : List ChangedFieldGroup} (before : Authored intl t)
    (due : ∀ due, patch.due = some (some due) → Accepted intl due)
    (made : t.update intl patch n = some (.ok (next,changed))) : Authored intl next := by
  rcases (Task.updateSource made).2 with ⟨-,rfl⟩ | ⟨-,edited⟩
  · exact before
  have dues : ∀ due, next.due = some due → Accepted intl due := by
    intro d is
    rw [edited.due] at is
    cases there : patch.due with
    | none => exact before.due d (by simpa [there] using is)
    | some value => exact due d (by simpa [there] using is)
  rcases edited.recurs with ⟨rule,anchor⟩ | ⟨rule,anchor⟩ | ⟨text,rule,due',parsed,is,dated,anchor⟩
  · exact ⟨dues,rule ▸ before.rule,anchor ▸ before.anchor⟩
  · exact ⟨dues,by simp [rule],by simp [anchor]⟩
  · refine ⟨dues,fun other same => ?_,fun other same => ?_⟩
    · obtain rfl := Option.some.inj (is.symm.trans same)
      exact parseRuleExact parsed
    · obtain rfl := Option.some.inj (anchor.symm.trans same)
      exact (dues due' dated).reading

theorem producedAuthored {intl : Intl} {t : Task} (produced : Produced intl t) : Authored intl t := by
  have wire : ∀ {due : Due}, FromWire intl due → Accepted intl due := fun ⟨_,read⟩ => parseDueSource read
  induction produced with
  | create due made => exact createdAuthored (fun d is => wire (due d is)) made
  | update _ due made ih => exact updatedAuthored ih (fun d is => wire (due d is)) made
  | successor _ due ih =>
    refine ⟨fun d is => ?_,ih.rule,ih.anchor⟩
    obtain rfl := Option.some.inj is
    exact wire due
  | complete _ made ih =>
    obtain ⟨-,rfl⟩ := Task.completeSource made
    exact ih.same rfl rfl rfl
  | cancel _ made ih =>
    obtain ⟨-,rfl⟩ := Task.cancelSource made
    exact ih.same rfl rfl rfl
  | reopen _ made ih =>
    obtain ⟨-,rfl⟩ := Task.reopenSource made
    exact ih.same rfl rfl rfl
  | assign _ made ih =>
    obtain ⟨-,rfl⟩ := Task.assignSource made
    exact ih.same rfl rfl rfl
  | unassign _ made ih =>
    obtain ⟨-,rfl⟩ := Task.unassignSource made
    exact ih.same rfl rfl rfl
  | relinquish _ ih => exact ih.same rfl rfl rfl
  | report _ made ih =>
    obtain ⟨dueAt,-,rfl⟩ := Option.map_eq_some_iff.mp made
    exact ih.same rfl rfl rfl

def Reloads (intl : Intl) (t : Task) : Prop :=
  ∃ written, columns intl t = .ok written ∧ toAggregate (rowOf t written) t.assignees = .ok t ∧
    t.dueAt intl = some written.dueAt

structure Storable (t : Task) : Prop where
  due : ∀ due, t.due = some due → 100 ≤ due.localDate.year
  anchor : ∀ anchor, t.recurrenceAnchor = some anchor → 100 ≤ anchor.year
  rule : ∀ rule, t.recurrenceRule = some rule → Small rule

def Due.full : Due → Due
  | .date day timeZone => .date ⟨fullYear day.year,day.month,day.day⟩ timeZone
  | .dateTime day time timeZone => .dateTime ⟨fullYear day.year,day.month,day.day⟩ time timeZone

def fullReading (reading : LocalDateTime) : LocalDateTime :=
  atTime ⟨fullYear reading.year,reading.month,reading.day⟩ reading.hour reading.minute reading.second

theorem columnsAccepted {intl : Intl} {t : Task} (authored : Authored intl t) : ∃ dueAt,
    t.dueAt intl = some dueAt ∧ columns intl t = .ok (columnsOf t ((t.due.map Due.full).map Due.localDate)
      (t.due.bind Due.localTime) dueAt (t.recurrenceAnchor.map fullReading)) := by
  obtain ⟨dueAt,moment⟩ : ∃ dueAt, t.dueAt intl = some dueAt := by
    cases due : t.due with
    | none => exact ⟨none,by simp [Task.dueAt,due]⟩
    | some d =>
      obtain ⟨moment,there⟩ := dueMomentAccepted (authored.due d due)
      exact ⟨some moment,by simp [Task.dueAt,due,there]⟩
  refine ⟨dueAt,moment,columnsAre ?_ ?_ moment ?_⟩
  · cases is : t.due with
    | none => rfl
    | some due =>
      simp only [convert,Option.map_some,localDateToDbAccepted (authored.due due is).date,orThrow]
      cases due <;> rfl
  · cases is : t.due with
    | none => rfl
    | some due =>
      cases there : due.localTime with
      | none => simp [convert,there]
      | some at_ =>
        simp only [convert,Option.bind_some,there,localTimeToDbAccepted ((authored.due due is).time at_ there),orThrow]
        rfl
  · cases is : t.recurrenceAnchor with
    | none => rfl
    | some reading =>
      obtain ⟨valid,clock⟩ := authored.anchor reading is
      simp only [convert,localDateTimeToDbAccepted valid clock,orThrow,Option.map_some]
      rfl

def acceptedColumns (t : Task) (dueAt : Option Instant) : TaskColumns :=
  columnsOf t ((t.due.map Due.full).map Due.localDate) (t.due.bind Due.localTime) dueAt
    (t.recurrenceAnchor.map fullReading)

theorem loadedAre (t : Task) (dueAt : Option Instant) :
    toAggregate (rowOf t (acceptedColumns t dueAt)) t.assignees =
      (storedRule (rowOf t (acceptedColumns t dueAt))).map (fun rule =>
        { t with due := t.due.map Due.full, recurrenceAnchor := t.recurrenceAnchor.map fullReading,
                 recurrenceRule := rule }) := by
  have due : toDue (rowOf t (acceptedColumns t dueAt)) = some (t.due.map Due.full) := by
    simp only [toDue,rowOf,acceptedColumns,columnsOf]
    cases t.due with
    | none => rfl
    | some due => cases due <;> rfl
  have state : toState (rowOf t (acceptedColumns t dueAt)) = some t.state := by
    simp only [toState,rowOf,acceptedColumns,columnsOf]
    cases t.state <;> rfl
  cases read : storedRule (rowOf t (acceptedColumns t dueAt)) with
  | error e => simp only [toAggregate,read]; rfl
  | ok rule => simp only [toAggregate,read,due,state]; rfl

theorem storedRuleAgain {intl : Intl} {t : Task} (authored : Authored intl t) (dueAt : Option Instant) :
    storedRule (rowOf t (acceptedColumns t dueAt)) = .ok t.recurrenceRule ↔
      ∀ rule, t.recurrenceRule = some rule → Small rule := by
  simp only [storedRule,rowOf,acceptedColumns,columnsOf]
  cases is : t.recurrenceRule with
  | none => simp
  | some rule =>
    have again := parseToText (authored.rule rule is)
    simp only [Option.map_some,Option.some.injEq,forall_eq']
    rw [← again]
    cases RecurrenceRule.parse rule.toText <;> simp

theorem dueFull {due : Due} (low : 0 ≤ due.localDate.year) : due.full = due ↔ 100 ≤ due.localDate.year := by
  rw [← fullYearSame low]
  cases due with
  | date day timeZone => cases day; simp [Due.full,Due.localDate]
  | dateTime day time timeZone => cases day; simp [Due.full,Due.localDate]

theorem readingFull {reading : LocalDateTime} (low : 0 ≤ reading.year) :
    fullReading reading = reading ↔ 100 ≤ reading.year := by
  rw [← fullYearSame low]
  obtain ⟨⟨year,month,day⟩,hour,minute,second⟩ := reading
  simp [fullReading,atTime]

theorem reloads {intl : Intl} {t : Task} (produced : Produced intl t) : Reloads intl t ↔ Storable t := by
  have authored := producedAuthored produced
  obtain ⟨dueAt,moment,written⟩ := columnsAccepted authored
  have due : t.due.map Due.full = t.due ↔ ∀ due, t.due = some due → 100 ≤ due.localDate.year := by
    cases is : t.due with
    | none => simp
    | some due => simp [dueFull (authored.due due is).date.year.1]
  have anchor : t.recurrenceAnchor.map fullReading = t.recurrenceAnchor ↔
      ∀ anchor, t.recurrenceAnchor = some anchor → 100 ≤ anchor.year := by
    cases is : t.recurrenceAnchor with
    | none => simp
    | some reading => simp [readingFull (authored.anchor reading is).1.year.1]
  constructor
  · rintro ⟨_,same,loaded,-⟩
    obtain rfl := Except.ok.inj (written.symm.trans same)
    rw [show columnsOf t _ _ dueAt _ = acceptedColumns t dueAt from rfl,loadedAre] at loaded
    cases read : storedRule (rowOf t (acceptedColumns t dueAt)) with
    | error e =>
      rw [read] at loaded
      cases loaded
    | ok rule =>
      rw [read] at loaded
      have is := Except.ok.inj loaded
      have rules : rule = t.recurrenceRule := congrArg Task.recurrenceRule is
      exact ⟨due.mp (congrArg Task.due is),anchor.mp (congrArg Task.recurrenceAnchor is),
        (storedRuleAgain authored dueAt).mp (rules ▸ read)⟩
  · rintro ⟨years,anchors,rules⟩
    refine ⟨_,written,?_,moment⟩
    rw [show columnsOf t _ _ dueAt _ = acceptedColumns t dueAt from rfl,loadedAre,
      (storedRuleAgain authored dueAt).mpr rules]
    simp only [Except.map,due.mpr years,anchor.mpr anchors]

def choreDue (date : LocalDate) (rule : Option String) : NewTask :=
  ⟨"Put the bins out",none,none,none,some (.dateTime date ⟨18,30⟩ "Europe/London"),rule,[]⟩

theorem choreReloads : ∃ t, Task.create (choreDue ⟨2026,9,30⟩ (some "FREQ=WEEKLY;INTERVAL=2;COUNT=26")) 0 0 0 0 = .ok t ∧
    t.isSeriesHead = true ∧ Reloads everywhereUtc t := by
  have rules : (parseRule (some "FREQ=WEEKLY;INTERVAL=2;COUNT=26")).map
      (fun rule => rule.map (fun rule => (rule.interval,rule.count))) =
      .ok (some (.finite 2,some (.finite 26))) := by decide +kernel
  cases made : Task.create (choreDue ⟨2026,9,30⟩ (some "FREQ=WEEKLY;INTERVAL=2;COUNT=26")) 0 0 0 0 with
  | error e =>
    have ok : (Task.create (choreDue ⟨2026,9,30⟩ (some "FREQ=WEEKLY;INTERVAL=2;COUNT=26")) 0 0 0 0).isOk = true := by
      decide +kernel
    rw [made] at ok
    cases ok
  | ok t =>
    obtain ⟨-,-,-,created⟩ := Task.createSource made
    have head : (Task.create (choreDue ⟨2026,9,30⟩ (some "FREQ=WEEKLY;INTERVAL=2;COUNT=26")) 0 0 0 0).map
        Task.isSeriesHead = .ok true := by decide +kernel
    rw [made] at head
    have due : t.due = some (.dateTime ⟨2026,9,30⟩ ⟨18,30⟩ "Europe/London") := created.due
    refine ⟨t,rfl,Except.ok.inj head,(reloads (.create (fun d is => ?_) made)).mpr ⟨fun d is => ?_,fun anchor is => ?_,
      fun rule is => ?_⟩⟩
    · exact ⟨.dateTime "2026-09-30" "18:30" "Europe/London",Option.some.inj is ▸ (by decide +kernel)⟩
    · obtain rfl := Option.some.inj (due.symm.trans is)
      decide
    · rw [created.anchor,due] at is
      split at is <;> cases is
      decide
    · have parsed := created.rule
      rw [is] at parsed
      rw [show (choreDue ⟨2026,9,30⟩ (some "FREQ=WEEKLY;INTERVAL=2;COUNT=26")).recurrenceRule =
        some "FREQ=WEEKLY;INTERVAL=2;COUNT=26" from rfl] at parsed
      rw [parsed] at rules
      have numbers := Option.some.inj (Except.ok.inj rules)
      obtain ⟨gap,count⟩ := Prod.mk.inj numbers
      exact ⟨by rw [gap]; rfl,fun n there => by rw [count] at there; cases there; rfl⟩

/- A due of the year 50 is loaded as one of 1950, and a task whose rule has a count of 10^21 is not loaded at all. -/
theorem choreLost :
    (parseDue everywhereUtc (.dateTime "0050-01-01" "18:30" "Europe/London") =
        .ok (.dateTime ⟨50,1,1⟩ ⟨18,30⟩ "Europe/London") ∧
      ∃ t written, Task.create (choreDue ⟨50,1,1⟩ none) 0 0 0 0 = .ok t ∧ columns everywhereUtc t = .ok written ∧
        (toAggregate (rowOf t written) t.assignees).map Task.due =
          .ok (some (.dateTime ⟨1950,1,1⟩ ⟨18,30⟩ "Europe/London"))) ∧
    ∃ t written, Task.create (choreDue ⟨2026,9,30⟩ (some "FREQ=DAILY;COUNT=1000000000000000000000")) 0 0 0 0 = .ok t ∧
      columns everywhereUtc t = .ok written ∧ toAggregate (rowOf t written) t.assignees = .error .unparsableRule := by
  have created : ∀ params : NewTask, (Task.create params 0 0 0 0).isOk = true →
      ∃ t, Task.create params 0 0 0 0 = .ok t := by
    intro params ok
    cases made : Task.create params 0 0 0 0 with
    | error e =>
      rw [made] at ok
      cases ok
    | ok t => exact ⟨t,rfl⟩
  have stored : ∀ t : Task, (columns everywhereUtc t).isOk = true → ∃ written, columns everywhereUtc t = .ok written := by
    intro t ok
    cases made : columns everywhereUtc t with
    | error e =>
      rw [made] at ok
      cases ok
    | ok written => exact ⟨written,rfl⟩
  constructor
  · refine ⟨by decide +kernel,?_⟩
    obtain ⟨t,made⟩ := created (choreDue ⟨50,1,1⟩ none) (by decide +kernel)
    have run : (Task.create (choreDue ⟨50,1,1⟩ none) 0 0 0 0 >>= fun t => .ok ((columns everywhereUtc t).isOk,
        columns everywhereUtc t >>= fun written => (toAggregate (rowOf t written) t.assignees).map Task.due)) =
        .ok (true,.ok (some (.dateTime ⟨1950,1,1⟩ ⟨18,30⟩ "Europe/London"))) := by decide +kernel
    rw [made] at run
    obtain ⟨ok,read⟩ := Prod.mk.inj (Except.ok.inj run)
    obtain ⟨written,is⟩ := stored t ok
    rw [is] at read
    exact ⟨t,written,made,is,read⟩
  · obtain ⟨t,made⟩ := created (choreDue ⟨2026,9,30⟩ (some "FREQ=DAILY;COUNT=1000000000000000000000")) (by decide +kernel)
    have run : (Task.create (choreDue ⟨2026,9,30⟩ (some "FREQ=DAILY;COUNT=1000000000000000000000")) 0 0 0 0 >>=
        fun t => .ok ((columns everywhereUtc t).isOk,
          columns everywhereUtc t >>= fun written => toAggregate (rowOf t written) t.assignees)) =
        .ok (true,.error .unparsableRule) := by decide +kernel
    rw [made] at run
    obtain ⟨ok,read⟩ := Prod.mk.inj (Except.ok.inj run)
    obtain ⟨written,is⟩ := stored t ok
    rw [is] at read
    exact ⟨t,written,made,is,read⟩

end FamilyPlatform.Tasks
