import FamilyPlatform.Tasks.Fits
import FamilyPlatform.Tasks.Writes

/-! Whatever dues members write, every row holds a due of the year 100 or later and an
anchor that a series can be expanded from, without seconds. -/
namespace FamilyPlatform.Tasks
open ZonedTime Civil Recurrence RecurrenceRule

def Command.Wired (intl : Intl) : Command → Prop
  | .createTask params => ∀ due, params.due = some due → FromWire intl due
  | .updateTask _ _ patch => ∀ due, patch.due = some (some due) → FromWire intl due
  | .completeTask _ _ | .cancelTask _ _ _ | .reopenTask _ _ | .assignTask _ _ | .unassignTask _ _ => True

def Work.Wired (intl : Intl) : Work → Prop
  | .member r => r.command.Wired intl
  | .report _ => True

structure Based (anchor : LocalDateTime) : Prop extends Anchored anchor where
  whole : anchor.second = 0

structure Stored (t : Task) : Prop where
  due : ∀ due, t.due = some due → Fit due
  anchor : ∀ anchor, t.recurrenceAnchor = some anchor → Based anchor

structure Proper (intl : Intl) (t : Task) : Prop where
  due : ∀ due, t.due = some due → Fit due ∨ Accepted intl due
  anchor : ∀ anchor, t.recurrenceAnchor = some anchor →
    Based anchor ∨ ∃ due, t.due = some due ∧ anchor = dueLocalDateTime due

structure RowShaped (row : TaskRow) : Prop where
  due : ∀ due, toDue row = some (some due) → Fit due
  anchor : ∀ anchor, row.recurrenceAnchor = some anchor → Based anchor

def StoreShaped (s : Store) : Prop := ∀ id row, s.tasks.find id = some row → RowShaped row

section
variable {intl : Intl} {s next : Store} {t : Task} {w : Work}

theorem Stored.same {t' : Task} (stored : Stored t) (due : t'.due = t.due)
    (anchor : t'.recurrenceAnchor = t.recurrenceAnchor) : Stored t' :=
  ⟨due ▸ stored.due,anchor ▸ stored.anchor⟩

theorem Stored.proper {t' : Task} (stored : Stored t) (due : t'.due = t.due)
    (anchor : t'.recurrenceAnchor = t.recurrenceAnchor) : Proper intl t' :=
  have same := stored.same due anchor
  ⟨fun due is => .inl (same.due due is),fun anchor is => .inl (same.anchor anchor is)⟩

theorem fromWire {due : Due} (wire : FromWire intl due) : Accepted intl due := by
  obtain ⟨input,read⟩ := wire
  exact parseDueSource read

theorem dueWhole (due : Due) : (dueLocalDateTime due).second = 0 := by cases due <;> rfl

theorem Accepted.full {due : Due} (accepted : Accepted intl due) : Fit due.full := by
  have year := fullYearBounds accepted.date.year.1 accepted.date.year.2
  cases due with
  | date day timeZone => exact ⟨accepted.date.real,year.1,by simp [Due.full,Due.localTime]⟩
  | dateTime day time timeZone => exact ⟨accepted.date.real,year.1,fun at_ is => accepted.time at_ is⟩

theorem Accepted.based {due : Due} (accepted : Accepted intl due) : Based (fullReading (dueLocalDateTime due)) := by
  have clock := accepted.reading.2
  have valid : UntilDate (dueLocalDateTime due).toDate := accepted.reading.1
  have year := fullYearBounds valid.year.1 valid.year.2
  have bounds := yearsWithin valid.real (show 0 ≤ fullYear _ by omega) year.2
  refine ⟨⟨⟨valid.real,?_,?_⟩,year.1,clock⟩,dueWhole due⟩
  · exact le_trans (by decide) year.1
  · exact lt_of_le_of_lt bounds.2 (by decide)

theorem Fit.based {due : Due} {i : Instant} (fit : Fit due) (moment : dueMomentOf intl due = some i) :
    Based (dueLocalDateTime due) := ⟨fit.anchored moment,dueWhole due⟩

theorem dateStored {due : Due} {date : LocalDate} (shaped : Fit due ∨ Accepted intl due)
    (db : localDateToDb due.localDate = some date) :
    ∃ stored : Due, Fit stored ∧ stored.localDate = date ∧ stored.localTime = due.localTime ∧ stored.kind = due.kind ∧
      stored.timeZone = due.timeZone := by
  rcases shaped with fit | accepted
  · exact ⟨due,fit,(localDateToDbLate fit.real fit.year db).symm,rfl,rfl,rfl⟩
  · rw [localDateToDbAccepted accepted.date] at db
    refine ⟨due.full,accepted.full,?_,?_⟩
    · rw [← Option.some.inj db]
      cases due <;> rfl
    · cases due <;> exact ⟨rfl,rfl,rfl⟩

theorem timeStored {due : Due} {time : LocalTime} (shaped : Fit due ∨ Accepted intl due) (is : due.localTime = some time) :
    localTimeToDb time = some time := by
  rcases shaped with fit | accepted
  · exact localTimeToDbAccepted (fit.time time is)
  · exact localTimeToDbAccepted (accepted.time time is)

theorem anchorStored {anchor anchor' : LocalDateTime} {dueAt : Option Instant} (proper : Proper intl t)
    (moment : t.dueAt intl = some dueAt) (is : t.recurrenceAnchor = some anchor)
    (db : localDateTimeToDb anchor = some anchor') :
    Based anchor' ∧ anchor'.hour = anchor.hour ∧ anchor'.minute = anchor.minute := by
  rcases proper.anchor anchor is with based | ⟨due,there,rfl⟩
  · rw [localDateTimeToDbLate based.day.real based.year based.clock db]
    exact ⟨based,rfl,rfl⟩
  · rcases proper.due due there with fit | accepted
    · simp only [Task.dueAt,there] at moment
      obtain ⟨i,found,-⟩ := Option.map_eq_some_iff.mp moment
      have based := fit.based found
      rw [localDateTimeToDbLate based.day.real based.year based.clock db]
      exact ⟨based,rfl,rfl⟩
    · rw [localDateTimeToDbAccepted accepted.reading.1 accepted.reading.2] at db
      cases db
      exact ⟨accepted.based,rfl,rfl⟩

theorem properDue {row : TaskRow} (proper : Proper intl t) (made : columns intl t = .ok row.toTaskColumns) {due : Due}
    (there : toDue row = some (some due)) : Fit due ∧ ∃ d, t.due = some d ∧ due.localTime = d.localTime := by
  obtain ⟨date,time,dueAt,anchor,dated,timed,-,-,is⟩ := columnsSource made
  obtain ⟨columns',id,familyId,predecessorId,createdBy⟩ := row
  simp only at is made
  subst is
  cases whole : t.due with
  | none => simp [toDue,columnsOf,whole] at there
  | some d =>
    have shaped := proper.due d whole
    rw [whole] at dated timed
    rcases convertSource dated with ⟨none_,-⟩ | ⟨d',date',some_,converted,rfl⟩
    · cases none_
    obtain rfl := Option.some.inj some_
    obtain ⟨stored,fit,date_,time_,kind,zone⟩ := dateStored shaped converted
    suffices due = stored from ⟨this ▸ fit,d,rfl,this ▸ time_⟩
    cases d with
    | date day timeZone =>
      cases stored with
      | dateTime => cases kind
      | date day' timeZone' =>
        simp only [Due.localDate,Due.timeZone] at date_ zone
        simp only [toDue,columnsOf,whole,Option.map_some,Option.getD_some,Due.kind,Due.timeZone,Option.some.injEq] at there
        rw [← there,date_,zone]
    | dateTime day at_ timeZone =>
      cases stored with
      | date => cases kind
      | dateTime day' at' timeZone' =>
        simp only [Due.localDate,Due.timeZone,Due.localTime,Option.some.injEq] at date_ zone time_
        simp only [Option.bind_some,Due.localTime,convert,timeStored shaped rfl,Option.map_some,orThrow] at timed
        cases timed
        simp only [toDue,columnsOf,whole,Option.map_some,Option.getD_some,Due.kind,Due.timeZone,Option.some.injEq] at there
        rw [← there,date_,zone,time_]

theorem properAnchor {row : TaskRow} (proper : Proper intl t) (made : columns intl t = .ok row.toTaskColumns)
    {anchor : LocalDateTime} (there : row.recurrenceAnchor = some anchor) : Based anchor ∧
      ∃ a, t.recurrenceAnchor = some a ∧ anchor.hour = a.hour ∧ anchor.minute = a.minute := by
  obtain ⟨_,_,_,_,-,-,moment,anchored,is⟩ := columnsSource made
  rw [is] at there
  rcases convertSource anchored with ⟨-,rfl⟩ | ⟨a,_,some_,converted,rfl⟩
  · cases there
  · cases there
    obtain ⟨based,same⟩ := anchorStored proper moment some_ converted
    exact ⟨based,a,some_,same⟩

theorem properRow {row : TaskRow} (proper : Proper intl t) (made : columns intl t = .ok row.toTaskColumns) :
    RowShaped row :=
  ⟨fun _ there => (properDue proper made there).1,fun _ there => (properAnchor proper made there).1⟩

theorem loadedStored {row : TaskRow} {assignees : List FamilyMemberId} (shaped : RowShaped row)
    (loaded : Loaded row assignees t) : Stored t :=
  ⟨fun due is => shaped.due due (loaded.due.trans (congrArg some is)),
    fun anchor is => shaped.anchor anchor (loaded.anchor.symm.trans is)⟩

theorem viewStored (shaped : StoreShaped s) (view : readLocked s w = .ok (some t)) : Stored t := by
  obtain ⟨row,there,-,-,loaded⟩ := viewSource view
  exact loadedStored (shaped t.id row there) loaded

theorem Closes.stored {t' : Task} (closed : Closes t t') (stored : Stored t) : Stored t' := by
  obtain ⟨state,rfl⟩ := closed
  exact stored.same rfl rfl

theorem readingFit {input : ExpandInput} {k : Nat} {x : ExpandedOccurrence} (based : Based input.dtstart)
    (of : OccursIn input k x) (due : Due) : Fit (dueAtReading due x.reading) := by
  have years : 100 ≤ x.reading.year := le_trans based.year (yearMono based.day.real of.inPeriod.real of.since)
  have read := of.clocked
  cases due with
  | date _ timeZone => exact ⟨of.inPeriod.real,years,by simp [dueAtReading,Due.localTime]⟩
  | dateTime _ _ timeZone =>
    refine ⟨of.inPeriod.real,years,fun time is => ?_⟩
    obtain rfl : (⟨x.reading.hour,x.reading.minute⟩ : LocalTime) = time := Option.some.inj is
    exact ⟨⟨read.1,read.2.1⟩,⟨read.2.2.1,read.2.2.2.1⟩⟩

theorem wroteProper (shaped : StoreShaped s) (wired : w.Wired intl) (wrote : Wrote intl s w t) : Proper intl t := by
  cases wrote with
  | created command ok =>
    simp only [Work.Wired,command,Command.Wired] at wired
    obtain ⟨-,-,-,created⟩ := Task.createSource ok
    refine ⟨fun due is => .inr (fromWire (wired due (created.due.symm.trans is))),fun anchor is => .inr ?_⟩
    rw [created.anchor] at is
    split at is
    · obtain ⟨due,there,rfl⟩ := Option.map_eq_some_iff.mp is
      exact ⟨due,there,rfl⟩
    · cases is
  | @moved r t t' view move =>
    have stored := viewStored shaped view
    cases move with
    | @updated _ _ patch _ _ command ok some_ =>
      rcases (Task.updateSource ok).2 with ⟨none_,-⟩ | ⟨-,edited⟩
      · exact absurd none_ some_
      simp only [Work.Wired,command,Command.Wired] at wired
      refine ⟨fun due is => ?_,fun anchor is => ?_⟩
      · rw [edited.due] at is
        cases patched : patch.due with
        | none => exact .inl (stored.due due (by simpa only [patched,Option.getD_none] using is))
        | some d =>
          exact .inr (fromWire (wired due (by simpa only [patched,Option.getD_some,Option.some.injEq] using is)))
      · rcases edited.recurs with ⟨-,same⟩ | ⟨-,none_⟩ | ⟨_,_,due,-,-,there,from_⟩
        · exact .inl (stored.anchor anchor (same.symm.trans is))
        · rw [none_] at is
          cases is
        · exact .inr ⟨due,there,Option.some.inj (is.symm.trans from_)⟩
    | completed _ ok => obtain ⟨-,rfl⟩ := Task.completeSource ok; exact stored.proper rfl rfl
    | cancelled _ ok => obtain ⟨-,rfl⟩ := Task.cancelSource ok; exact stored.proper rfl rfl
    | reopened _ ok => obtain ⟨-,rfl⟩ := Task.reopenSource ok; exact stored.proper rfl rfl
    | assigned _ ok => obtain ⟨-,rfl⟩ := Task.assignSource ok; exact stored.proper rfl rfl
    | unassigned _ ok => obtain ⟨-,rfl⟩ := Task.unassignSource ok; exact stored.proper rfl rfl
  | relinquished view closed =>
    have stored := closed.stored (viewStored shaped view)
    exact stored.proper rfl rfl
  | succeeded view closed found _ =>
    have stored := closed.stored (viewStored shaped view)
    obtain ⟨rule,anchor,due,zone,dueAt,x,-,anchored,-,-,-,occurs,rfl⟩ := nextDueSource found
    have based := stored.anchor anchor anchored
    obtain ⟨-,window,k,of⟩ := nextOccurs based.day based.clock occurs
    refine ⟨fun d is => .inl ?_,fun a is => .inl (stored.anchor a is)⟩
    obtain rfl : dueAtReading due x.reading = d := Option.some.inj is
    exact readingFit based of due
  | reported view =>
    have stored := viewStored shaped view
    exact stored.proper rfl rfl

theorem workShaped (shaped : StoreShaped s) (wired : w.Wired intl) :
    StoreShaped (writeLocked intl s w (readLocked s w)).2 := by
  intro id row there
  rcases workRows id row there with old | ⟨t,wrote,-,made⟩
  · exact shaped id row old
  · exact properRow (wroteProper shaped wired wrote) made

end
end FamilyPlatform.Tasks
