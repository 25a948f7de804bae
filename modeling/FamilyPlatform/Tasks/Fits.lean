import FamilyPlatform.Kernel.Next
import FamilyPlatform.Tasks.Reload
import FamilyPlatform.Tasks.Works

/-! Where members write no due before the year 100, every row that any command or
report leaves is read back with the due moment that it holds. -/
namespace FamilyPlatform.Tasks
open ZonedTime Civil Recurrence

structure Fit (due : Due) : Prop where
  real : due.localDate.Real
  year : 100 ≤ due.localDate.year
  time : ∀ time, due.localTime = some time → time.Valid

structure Anchored (anchor : LocalDateTime) : Prop where
  day : StartDay anchor.toDate
  year : 100 ≤ anchor.year
  clock : LocalDateTime.Clock anchor

def Written (intl : Intl) (due : Due) : Prop := FromWire intl due ∧ 100 ≤ due.localDate.year

theorem Written.fit {intl : Intl} {due : Due} (written : Written intl due) : Fit due := by
  obtain ⟨⟨input,read⟩,year⟩ := written
  have accepted := parseDueSource read
  exact ⟨accepted.date.written,year,accepted.time⟩

theorem dateUtcLate {l : LocalDateTime} {ms : Int} (real : l.toDate.Real) (year : 100 ≤ l.year)
    (utc : dateUtc l.year l.month l.day l.hour l.minute l.second = some ms) : ms = secondOf l * 1000 := by
  have late : ¬ (0 ≤ l.year ∧ l.year ≤ 99) := by omega
  simp only [dateUtc,if_neg late,makeDayReal _ real.1 real.2.1] at utc
  rw [timeClipSource utc,← secondMs]
  simp only [clockMs,Date.number]
  omega

theorem localDateToDbLate {date date' : LocalDate} (real : date.Real) (year : 100 ≤ date.year)
    (db : localDateToDb date = some date') : date' = date := by
  obtain ⟨ms,utc,rfl⟩ := Option.map_eq_some_iff.mp db
  rw [@dateUtcLate (atTime date 0 0 0) ms real year utc]
  have day : secondOf (atTime date 0 0 0) * 1000 / msPerDay = date.number := by
    simp only [secondOf,atTime,msPerDay]
    omega
  rw [utcDate,day,dateOfNumber real]

theorem localDateTimeToDbLate {reading reading' : LocalDateTime} (real : reading.toDate.Real) (year : 100 ≤ reading.year)
    (clock : LocalDateTime.Clock reading) (db : localDateTimeToDb reading = some reading') : reading' = reading := by
  obtain ⟨ms,utc,rfl⟩ := Option.map_eq_some_iff.mp db
  rw [dateUtcLate real year utc,Int.mul_ediv_cancel _ (by decide),readingOfSecond real clock]

theorem Fit.clock {due : Due} (fit : Fit due) : LocalDateTime.Clock (dueLocalDateTime due) := by
  cases due with
  | date date timeZone => simp [LocalDateTime.Clock,dueLocalDateTime,atTime]
  | dateTime date time timeZone =>
    obtain ⟨hour,minute⟩ := fit.time time rfl
    exact ⟨hour.1,hour.2,minute.1,minute.2,Int.le_refl 0,show (0 : Int) ≤ 59 by decide⟩

theorem yearHundred {date : LocalDate} (real : date.Real) (year : 100 ≤ date.year) : -683003 ≤ date.number := by
  obtain ⟨since,-⟩ := realOffset real
  have := yearStartMono year
  have : yearStart 100 = -683003 := by decide
  omega

theorem Fit.anchored {intl : Intl} {due : Due} {i : Instant} (fit : Fit due) (moment : dueMomentOf intl due = some i) :
    Anchored (dueLocalDateTime due) := by
  have low := yearHundred fit.real fit.year
  have year := fit.year
  have first : 1 ≤ due.localDate.year := by omega
  simp only [dueMomentOf,bind,Option.bind_eq_some_iff] at moment
  obtain ⟨zone,-,moment⟩ := moment
  cases due with
  | date date timeZone =>
    obtain ⟨next,added,-⟩ := Option.bind_eq_some_iff.mp moment
    obtain ⟨-,high⟩ := addDaysSource fit.real (by unfold earliest; omega) added
    simp only [Due.localDate] at high
    exact ⟨⟨fit.real,first,by simp only [dueLocalDateTime,atTime]; omega⟩,year,fit.clock⟩
  | dateTime date time timeZone =>
    refine ⟨⟨fit.real,first,?_⟩,year,fit.clock⟩
    have clock : LocalDateTime.Clock (atTime date time.hour time.minute 0) := fit.clock
    simp only [localToInstant,bind,Option.bind_eq_some_iff] at moment
    obtain ⟨pivot,utc,before,-,after,offsetAfter,-⟩ := moment
    have is := (@localAsUtcMsSource (atTime date time.hour time.minute 0) pivot fit.real clock
      (by unfold earliest; exact le_trans (by decide) low) utc).1
    simp only [offsetMsAt,bind,Option.bind_eq_some_iff] at offsetAfter
    obtain ⟨reading,read,-⟩ := offsetAfter
    obtain ⟨ms,clip,-⟩ := Option.map_eq_some_iff.mp read
    have bounds := clockBounds clock
    rw [← secondMs] at is
    unfold timeClip at clip
    split at clip
    · rename_i inside
      simp only [dueLocalDateTime,atTime] at *
      unfold latest msPerDay at *
      omega
    · cases clip

structure Fits (t : Task) : Prop where
  due : ∀ due, t.due = some due → Fit due
  anchor : ∀ anchor, t.recurrenceAnchor = some anchor → Anchored anchor

structure Fresh (t : Task) : Prop where
  due : ∀ due, t.due = some due → Fit due
  anchor : ∀ anchor, t.recurrenceAnchor = some anchor →
    Anchored anchor ∨ ∃ due, t.due = some due ∧ anchor = dueLocalDateTime due

theorem Fits.fresh {t : Task} (fits : Fits t) : Fresh t := ⟨fits.due,fun a is => .inl (fits.anchor a is)⟩

theorem Fresh.fits {intl : Intl} {t : Task} {dueAt : Option Instant} (fresh : Fresh t)
    (moment : t.dueAt intl = some dueAt) : Fits t := by
  refine ⟨fresh.due,fun anchor is => ?_⟩
  rcases fresh.anchor anchor is with anchored | ⟨due,there,rfl⟩
  · exact anchored
  · simp only [Task.dueAt,there] at moment
    obtain ⟨i,found,-⟩ := Option.map_eq_some_iff.mp moment
    exact (fresh.due due there).anchored found

structure RowFits (intl : Intl) (row : TaskRow) : Prop where
  due : ∃ due, toDue row = some due ∧ (∀ d, due = some d → Fit d) ∧
    (∀ t : Task, t.due = due → t.dueAt intl = some row.dueAt)
  anchor : ∀ anchor, row.recurrenceAnchor = some anchor → Anchored anchor
  saved : ∃ t, columns intl t = .ok row.toTaskColumns

theorem convertSource {α β : Type} {f : α → Option β} {x : Option α} {y : Option β} (ok : convert f x = .ok y) :
    (x = none ∧ y = none) ∨ ∃ a b, x = some a ∧ f a = some b ∧ y = some b := by
  cases x with
  | none =>
    cases ok
    exact .inl ⟨rfl,rfl⟩
  | some a =>
    obtain ⟨b,found,rfl⟩ := Option.map_eq_some_iff.mp (orThrowSource ok)
    exact .inr ⟨a,b,rfl,found,rfl⟩

theorem columnsFit {intl : Intl} {t : Task} {row : TaskRow} (fresh : Fresh t)
    (made : columns intl t = .ok row.toTaskColumns) : RowFits intl row := by
  obtain ⟨date,time,dueAt,anchor,dated,timed,moment,anchored,is⟩ := columnsSource made
  have fits := fresh.fits moment
  obtain ⟨columns',id,familyId,predecessorId,createdBy⟩ := row
  simp only at is made
  subst is
  refine ⟨⟨t.due,?_,fits.due,?_⟩,?_,t,made⟩
  · rcases convertSource dated with ⟨none_,rfl⟩ | ⟨d,d',some_,converted,rfl⟩
    · cases due : t.due with
      | none => simp only [toDue,columnsOf,due,Option.map_none,Option.getD_none]
      | some d => simp [due] at none_
    · cases due : t.due with
      | none => simp [due] at some_
      | some whole =>
        have fit := fits.due whole due
        simp only [due,Option.map_some,Option.some.injEq] at some_
        subst some_
        obtain rfl := localDateToDbLate fit.real fit.year converted
        cases whole with
        | date day timeZone => simp only [toDue,columnsOf,due,Option.map_some,Option.getD_some,Due.kind,Due.timeZone,Due.localDate]
        | dateTime day at_ timeZone =>
          rw [due] at timed
          simp only [Option.bind_some,Due.localTime,convert,localTimeToDbAccepted (fit.time at_ rfl),Option.map_some,orThrow]
            at timed
          cases timed
          simp only [toDue,columnsOf,due,Option.map_some,Option.getD_some,Due.kind,Due.timeZone,Due.localDate]
  · intro u same
    simpa only [columnsOf,Task.dueAt,same] using moment
  · intro a there
    simp only [columnsOf] at there
    rcases convertSource anchored with ⟨-,rfl⟩ | ⟨b,b',some_,converted,rfl⟩
    · cases there
    · have anchored := fits.anchor b some_
      obtain rfl := localDateTimeToDbLate anchored.day.real anchored.year anchored.clock converted
      cases there
      exact anchored

theorem loadedFits {intl : Intl} {row : TaskRow} {assignees : List FamilyMemberId} {t : Task}
    (fits : RowFits intl row) (loaded : Loaded row assignees t) : Fits t ∧ t.dueAt intl = some row.dueAt := by
  obtain ⟨due,is,fit,moment⟩ := fits.due
  have same : t.due = due := Option.some.inj (loaded.due.symm.trans is)
  exact ⟨⟨fun d there => fit d (same.symm.trans there),fun a there => fits.anchor a (loaded.anchor.symm.trans there)⟩,
    moment t same⟩

def Command.Dated (intl : Intl) : Command → Prop
  | .createTask params => ∀ due, params.due = some due → Written intl due
  | .updateTask _ _ patch => ∀ due, patch.due = some (some due) → Written intl due
  | .completeTask _ _ | .cancelTask _ _ _ | .reopenTask _ _ | .assignTask _ _ | .unassignTask _ _ => True

def Work.Dated (intl : Intl) : Work → Prop
  | .member r => r.command.Dated intl
  | .report _ => True

section
variable {intl : Intl} {s next : Store} {r : Request} {t t' : Task}

theorem createdFresh {params : NewTask} (created : Task.Created params t)
    (dated : ∀ due, params.due = some due → Written intl due) : Fresh t := by
  refine ⟨fun due is => (dated due (created.due.symm.trans is)).fit,fun anchor is => .inr ?_⟩
  rw [created.anchor] at is
  split at is
  · obtain ⟨due,there,rfl⟩ := Option.map_eq_some_iff.mp is
    exact ⟨due,there,rfl⟩
  · cases is

theorem movedFresh {n : TaskSeriesId} (fits : Fits t) (dated : r.command.Dated intl) (move : Moved intl r n t t') :
    Fresh t' := by
  cases move with
  | @updated _ _ patch _ _ command ok some_ =>
    rcases (Task.updateSource ok).2 with ⟨none_,-⟩ | ⟨-,edited⟩
    · exact absurd none_ some_
    rw [command] at dated
    refine ⟨fun due is => ?_,fun anchor is => ?_⟩
    · rw [edited.due] at is
      cases patched : patch.due with
      | none => exact fits.due due (by simpa only [patched,Option.getD_none] using is)
      | some d => exact (dated due (by simpa only [patched,Option.getD_some,Option.some.injEq] using is)).fit
    · rcases edited.recurs with ⟨-,same⟩ | ⟨-,none_⟩ | ⟨_,_,due,-,-,there,from_⟩
      · exact .inl (fits.anchor anchor (same.symm.trans is))
      · rw [none_] at is
        cases is
      · exact .inr ⟨due,there,Option.some.inj (is.symm.trans from_)⟩
  | completed _ ok => obtain ⟨-,rfl⟩ := Task.completeSource ok; exact ⟨fits.due,fits.fresh.anchor⟩
  | cancelled _ ok => obtain ⟨-,rfl⟩ := Task.cancelSource ok; exact ⟨fits.due,fits.fresh.anchor⟩
  | reopened _ ok => obtain ⟨-,rfl⟩ := Task.reopenSource ok; exact ⟨fits.due,fits.fresh.anchor⟩
  | assigned _ ok => obtain ⟨-,rfl⟩ := Task.assignSource ok; exact ⟨fits.due,fits.fresh.anchor⟩
  | unassigned _ ok => obtain ⟨-,rfl⟩ := Task.unassignSource ok; exact ⟨fits.due,fits.fresh.anchor⟩

theorem nextDueSource {now : Instant} {due : Due} (found : successorDueOf intl t now = some (.ok (some due))) :
    ∃ rule anchor due₀ zone dueAt x, t.recurrenceRule = some rule ∧ t.recurrenceAnchor = some anchor ∧
      t.due = some due₀ ∧ intl due₀.timeZone = some zone ∧ t.dueAt intl = some (some dueAt) ∧
      nextOccurrenceAfter ⟨rule,anchor,zone,max dueAt now⟩ = some (.ok (some x)) ∧ due = dueAtReading due₀ x.reading := by
  simp only [successorDueOf,bind,Option.bind_eq_some_iff] at found
  obtain ⟨dueAt,moment,found⟩ := found
  split at found
  · rename_i rule anchor due₀ dueAt head ruled anchored dated
    obtain ⟨zone,named,found⟩ := Option.bind_eq_some_iff.mp found
    obtain ⟨next,occurs,found⟩ := Option.bind_eq_some_iff.mp found
    cases next with
    | error e => cases found
    | ok x =>
      cases x with
      | none => cases found
      | some x =>
        cases found
        exact ⟨rule,anchor,due₀,zone,dueAt,x,ruled,anchored,dated,named,moment,occurs,rfl⟩
  · cases found

theorem successorFits {now : Instant} {due : Due} {id : TaskId} {member : FamilyMemberId} (fits : Fits t)
    (found : successorDueOf intl t now = some (.ok (some due))) : Fits (Task.successorOf id t due member) := by
  obtain ⟨rule,anchor,due₀,zone,dueAt,x,-,anchored,-,-,-,occurs,rfl⟩ := nextDueSource found
  obtain ⟨day,year,clock⟩ := fits.anchor anchor anchored
  obtain ⟨-,window,k,of⟩ := nextOccurs day clock occurs
  refine ⟨fun due is => ?_,fits.anchor⟩
  obtain rfl : dueAtReading due₀ x.reading = due := Option.some.inj is
  have years : 100 ≤ x.reading.year := le_trans year (yearMono day.real of.inPeriod.real of.since)
  have read := of.clocked
  cases due₀ with
  | date _ timeZone => exact ⟨of.inPeriod.real,years,by simp [dueAtReading,Due.localTime]⟩
  | dateTime _ _ timeZone =>
    refine ⟨of.inPeriod.real,years,fun time is => ?_⟩
    obtain rfl : (⟨x.reading.hour,x.reading.minute⟩ : LocalTime) = time := Option.some.inj is
    exact ⟨⟨read.1,read.2.1⟩,⟨read.2.2.1,read.2.2.2.1⟩⟩

def StoreFits (intl : Intl) (s : Store) : Prop := ∀ id row, s.tasks.find id = some row → RowFits intl row

theorem changedFits (fresh : Fresh t) (changed : Store.Changed intl s next t) :
    ∃ row, next.tasks.find t.id = some row ∧ RowFits intl row := by
  obtain ⟨old,written,-,made,is⟩ := changed
  exact ⟨_,is,columnsFit fresh made⟩

theorem placedFits {familyId : FamilyId} (fresh : Fresh t) (placed : Store.Placed intl s next familyId t) :
    ∃ row, next.tasks.find t.id = some row ∧ RowFits intl row := by
  obtain ⟨written,-,made,is⟩ := placed
  exact ⟨_,is,columnsFit fresh made⟩

theorem fitsAfter {id : TaskId} {row : TaskRow} (fits : StoreFits intl s)
    (others : ∀ other, other ≠ id → next.tasks.find other = s.tasks.find other)
    (own : next.tasks.find id = some row) (rowFits : RowFits intl row) : StoreFits intl next := by
  intro other row' there
  by_cases same : other = id
  · subst same
    exact Option.some.inj (own.symm.trans there) ▸ rowFits
  · exact fits other row' (others other same ▸ there)

theorem viewFits {w : Work} (fits : StoreFits intl s) (view : readLocked s w = .ok (some t)) :
    Fits t ∧ ∃ row, s.tasks.find t.id = some row ∧ Loaded row (s.assigneesOf t.id) t ∧ t.dueAt intl = some row.dueAt := by
  obtain ⟨row,there,-,-,loaded⟩ := viewSource view
  obtain ⟨taskFits,moment⟩ := loadedFits (fits t.id row there) loaded
  exact ⟨taskFits,row,there,loaded,moment⟩

theorem effectFits {reply : Reply} (fits : StoreFits intl s) (taskFits : Fits t) (dated : r.command.Dated intl)
    (effect : Effect intl s r t reply next) : StoreFits intl next := by
  cases effect with
  | kept tasks => exact fun id row there => fits id row (tasks ▸ there)
  | moved move row rows =>
    obtain ⟨row,own,fit⟩ := changedFits (movedFresh taskFits dated move) row
    exact fitsAfter fits rows own fit
  | @handed t' due _ move found changed placed rows =>
    have fresh := movedFresh taskFits dated move
    have relinquished : Fresh t'.relinquishHead := ⟨fresh.due,fresh.anchor⟩
    have fits' : Fits t' := by
      obtain ⟨_,_,-,made,-⟩ := changed
      obtain ⟨_,_,_,_,-,-,moment,-⟩ := columnsSource made
      exact fresh.fits moment
    obtain ⟨row₁,own₁,fit₁⟩ := changedFits relinquished changed
    obtain ⟨row₂,own₂,fit₂⟩ := placedFits (successorFits fits' found).fresh placed
    intro id row there
    by_cases same : id = t'.id
    · subst same
      exact Option.some.inj (own₁.symm.trans there) ▸ fit₁
    · by_cases new : id = s.issued
      · subst new
        exact Option.some.inj (own₂.symm.trans there) ▸ fit₂
      · exact fits id row (rows id same new ▸ there)

theorem didFits {w : Work} {outcome : WorkOutcome} (fits : StoreFits intl s) (dated : w.Dated intl)
    (did : Did intl s w outcome next) : StoreFits intl next := by
  cases did with
  | created command ok row rows =>
    simp only [Work.Dated,command,Command.Dated] at dated
    obtain ⟨-,-,-,created⟩ := Task.createSource ok
    obtain ⟨row,own,fit⟩ := placedFits (createdFresh created dated) row
    exact fitsAfter fits rows own fit
  | worked _ view _ effect => exact effectFits fits (viewFits fits view).1 dated effect
  | refused _ tasks => exact fun id row there => fits id row (tasks ▸ there)
  | @reported _ t dueAt _ _ view _ _ row rows =>
    have taskFits := (viewFits fits view).1
    have marked : Fresh { t with overdueReportedFor := some dueAt } := ⟨taskFits.due,taskFits.fresh.anchor⟩
    obtain ⟨row,own,fit⟩ := changedFits marked row
    exact fitsAfter fits rows own fit
  | unreported _ => exact fits

end
end FamilyPlatform.Tasks
