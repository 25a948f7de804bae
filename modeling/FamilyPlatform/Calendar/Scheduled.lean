import FamilyPlatform.Kernel.Crowded
import FamilyPlatform.Calendar.Reconciled
import FamilyPlatform.Calendar.Commands

/-! The occurrences that an event should have, and has after a rematerialisation: those of its rule in the window and
none after them, or the one of an event without a rule. -/
namespace FamilyPlatform.Calendar
open ZonedTime Civil Recurrence

/- A date from the year 100 on that is before the last one of `Date`. -/
structure Dated (d : LocalDate) : Prop where
  real : d.Real
  first : 100 ≤ d.year
  last : d.number < latest

/- An instant from the year 100 on, in UTC, that is two days before the last one of `Date`. -/
def DatedInstant (i : Instant) : Prop := -683003 * msPerDay ≤ i ∧ i + 2 * msPerDay ≤ latest * msPerDay

def EventTiming.Dated : EventTiming → Prop
  | .timed startsAt _ => DatedInstant startsAt
  | .allDay startDate endDate => Calendar.Dated startDate ∧ Calendar.Dated endDate

section
variable {d : LocalDate} {timing : EventTiming} {zone : Zone} {dtstart : LocalDateTime} {i : Instant}

theorem Dated.start (dated : Dated d) : StartDay d := ⟨dated.real,by have := dated.first; omega,dated.last⟩

theorem dbDateDated (dated : Dated d) : localDateToDbDate d = some d := by
  have low := dated.start.low
  have first := dated.first
  have last := dated.last
  have clip : timeClip (d.number * msPerDay) = some (d.number * msPerDay) :=
    timeClipSome (by unfold latest msPerDay at *; omega) (by unfold latest msPerDay at *; omega)
  have ms : dateUtc d.year d.month d.day 0 0 0 = some (d.number * msPerDay) := by
    rw [dateUtc,if_neg (by omega),makeDayReal _ dated.real.1 dated.real.2.1]
    simpa [Date.number] using clip
  rw [localDateToDbDate,ms,Option.map_some,utcDate,Int.mul_ediv_cancel _ (by decide),dateOfNumber dated.real]

theorem dbTimingDated (dated : timing.Dated) : dbTiming timing = .ok timing := by
  cases timing with
  | timed startsAt endsAt => rfl
  | allDay startDate endDate =>
    simp only [dbTiming,dbDateDated dated.1,dbDateDated dated.2,orThrow]
    rfl

theorem dayNumbers {i offset : Int} (low : -683003 * msPerDay ≤ i) (high : i + 2 * msPerDay ≤ latest * msPerDay)
    (bound : -54000 ≤ offset ∧ offset ≤ 54000) :
    -719162 ≤ (i / 1000 + offset) / 86400 ∧ (i / 1000 + offset) / 86400 < latest := by
  unfold latest msPerDay at *
  omega

theorem startDated (dated : timing.Dated) (found : dtstartOf zone timing = some dtstart) :
    StartDay dtstart.toDate ∧ LocalDateTime.Clock dtstart := by
  cases timing with
  | timed startsAt endsAt =>
    obtain ⟨real,clock⟩ := instantToLocalReal found
    have day := congrArg (fun l : LocalDateTime => l.toDate.number) (instantToLocalSource found)
    simp only [readingOfDay] at day
    obtain ⟨low,high⟩ := dayNumbers dated.1 dated.2 (zone.steady.bounded (startsAt / 1000))
    refine ⟨⟨real,?_,day ▸ high⟩,clock⟩
    by_contra before
    obtain ⟨-,till⟩ := realOffset real
    have year := yearStartMono (show dtstart.year + 1 ≤ 1 by omega)
    have first : yearStart 1 = -719162 := by decide
    rw [day] at till
    omega
  | allDay startDate endDate =>
    cases found
    exact ⟨dated.1.start,by simp [LocalDateTime.Clock,atTime]⟩

theorem sameDated {a b : EventTiming} (datedA : a.Dated) (datedB : b.Dated) (same : sameTiming a b = true) : a = b := by
  have equal : ∀ {d e : LocalDate}, Calendar.Dated d → Calendar.Dated e → compareLocalDates d e = some 0 → d = e := by
    intro d e datedD datedE zero
    have lowD := datedD.start.low
    have lowE := datedE.start.low
    have is := compareSource datedD.real datedE.real (by unfold earliest; omega) (by unfold earliest; omega) zero
    rw [← dateOfNumber datedD.real,← dateOfNumber datedE.real]
    exact congrArg dateOf (by omega)
  cases a <;> cases b <;> simp only [sameTiming,Bool.and_eq_true,decide_eq_true_eq,Bool.false_eq_true] at same
  · rw [same.1,same.2]
  · rw [equal datedA.1 datedB.1 same.1,equal datedA.2 datedB.2 same.2]

end

/- An occurrence that the rule produces; with a COUNT, in one of the periods that an expansion goes through at most. -/
structure Scheduled (rule : RecurrenceRule) (dtstart : LocalDateTime) (zone : Zone) (x : ExpandedOccurrence) : Prop where
  produced : Produces rule dtstart zone x
  reached : rule.count.isSome = true →
    ∃ k < maxPeriods, some x.reading.toDate ∈ candidatesForPeriod rule dtstart.toDate k

theorem scheduledVisited {rule : RecurrenceRule} {dtstart : LocalDateTime} {zone : Zone} {x : ExpandedOccurrence} :
    Scheduled rule dtstart zone x ↔ Visited ⟨rule,dtstart,zone,0⟩ x :=
  ⟨fun scheduled => ⟨scheduled.produced,scheduled.reached⟩,fun visited => ⟨visited.produced,visited.reached⟩⟩

theorem mapMSome {α β : Type} {f : α → Option β} {xs : List α} {ys : List β} (ok : xs.mapM f = some ys) :
    xs.map f = ys.map some := by
  induction xs generalizing ys with
  | nil =>
    cases ok
    rfl
  | cons x rest ih =>
    simp only [List.mapM_cons,bind,Option.bind_eq_some_iff] at ok
    obtain ⟨y,first,others,later,is⟩ := ok
    cases is
    rw [List.map_cons,List.map_cons,first,ih later]

theorem mapImage {α β γ : Type} {f : α → Option β} {g : β → γ} {h : α → γ} (image : ∀ x y, f x = some y → g y = h x)
    {xs : List α} {ys : List β} (same : xs.map f = ys.map some) : ys.map g = xs.map h := by
  have both := congrArg (List.map (Option.map g)) same
  rw [List.map_map,List.map_map] at both
  refine List.map_injective_iff.mpr (Option.some_injective γ) ?_
  rw [List.map_map,List.map_map]
  refine both.symm.trans (List.map_congr_left (fun x mem => ?_))
  obtain ⟨y,-,is⟩ := List.mem_map.mp (same ▸ List.mem_map_of_mem mem : f x ∈ ys.map some)
  rw [Function.comp,Function.comp,← is,Option.map_some,image x y is.symm]

section
variable {zone : Zone} {timing : EventTiming} {rule : RecurrenceRule} {window : Window} {plan : OccurrencePlan}
  {x : ExpandedOccurrence} {p : PlannedOccurrence}

theorem plannedStart (found : planOccurrence zone timing x = some p) : p.startsAt = x.instant := by
  unfold planOccurrence at found
  split at found
  · cases found
    rfl
  · simp only [bind,Option.bind_eq_some_iff] at found
    obtain ⟨_,-,_,-,_,-,_,-,is⟩ := found
    cases is
    rfl

structure Plans (zone : Zone) (rule : RecurrenceRule) (timing : EventTiming) (dtstart : LocalDateTime) (window : Window)
    (plan : OccurrencePlan) : Prop where
  scope : plan.scopeFrom = some window.start
  distinct : (plan.planned.map PlannedOccurrence.startsAt).Nodup
  within : ∀ p ∈ plan.planned, window.start ≤ p.startsAt ∧ p.startsAt < window.stop
  produced : ∀ p ∈ plan.planned, ∃ x, Scheduled rule dtstart zone x ∧ planOccurrence zone timing x = some p
  complete : ∀ x, Scheduled rule dtstart zone x → window.start ≤ x.instant → x.instant < window.stop →
    ∃ p ∈ plan.planned, planOccurrence zone timing x = some p
  marker : plan.materialisedThrough = some window.stop ∨ plan.materialisedThrough = none ∧
    ∀ x, Produces rule dtstart zone x → window.start ≤ x.instant → x.instant < window.stop

theorem seriesPlans {dtstart : LocalDateTime} (read : dtstartOf zone timing = some dtstart) (s : StartDay dtstart.toDate)
    (clock : LocalDateTime.Clock dtstart) (short : window.stop - window.start ≤ 4000 * msPerDay)
    (ok : planSeries zone rule timing window = some (.ok plan)) : Plans zone rule timing dtstart window plan := by
  simp only [planSeries,read,bind,Option.bind_some,Option.bind_eq_some_iff] at ok
  obtain ⟨result,expanded,ok⟩ := ok
  cases result with
  | error e => cases ok
  | ok expansion =>
    obtain ⟨planned,mapped,is⟩ := Option.bind_eq_some_iff.mp ok
    cases is
    have same := mapMSome mapped
    have ordered := @expandOrdered (expansionOf rule dtstart zone window) s clock _ expanded
    have visited : ∀ x ∈ expansion.occurrences, Visited ⟨rule,dtstart,zone,0⟩ x ∧ within window x = true :=
      fun x mem => @expandedVisited ⟨rule,dtstart,zone,0⟩ s clock window x _ expanded mem
    have source : ∀ p ∈ planned, ∃ x ∈ expansion.occurrences, planOccurrence zone timing x = some p := fun p mem =>
      List.mem_map.mp (same ▸ List.mem_map_of_mem mem : some p ∈ expansion.occurrences.map (planOccurrence zone timing))
    refine ⟨rfl,?_,fun p mem => ?_,fun p mem => ?_,fun x scheduled since till => ?_,?_⟩
    · rw [mapImage (fun x p => @plannedStart zone timing x p) same]
      exact List.pairwise_map.mpr (ordered.imp (fun less => ne_of_lt less))
    · obtain ⟨x,there,is⟩ := source p mem
      obtain ⟨-,inside⟩ := visited x there
      simp only [within,Bool.and_eq_true,decide_eq_true_eq] at inside
      rwa [plannedStart is]
    · obtain ⟨x,there,is⟩ := source p mem
      exact ⟨x,scheduledVisited.mpr (visited x there).1,is⟩
    · have mem := @visitedExpanded ⟨rule,dtstart,zone,0⟩ s clock window x _ expanded short
        (scheduledVisited.mp scheduled) (by simp only [within,Bool.and_eq_true,decide_eq_true_eq]; exact ⟨since,till⟩)
      have there := List.mem_map_of_mem (f := planOccurrence zone timing) mem
      rw [same] at there
      obtain ⟨p,planned_,is⟩ := List.mem_map.mp there
      exact ⟨p,planned_,is.symm⟩
    · simp only
      split
      · rename_i exhausted
        exact .inr ⟨rfl,fun x produced since => @exhaustedNone (expansionOf rule dtstart zone window) s clock _ _ expanded
          exhausted since produced⟩
      · exact .inl rfl

theorem seriesPlanned (dated : timing.Dated) (short : window.stop - window.start ≤ 4000 * msPerDay)
    (ok : planSeries zone rule timing window = some (.ok plan)) :
    ∃ dtstart, dtstartOf zone timing = some dtstart ∧ Plans zone rule timing dtstart window plan := by
  have started := ok
  simp only [planSeries,bind,Option.bind_eq_some_iff] at started
  obtain ⟨dtstart,read,-⟩ := started
  obtain ⟨s,clock⟩ := startDated dated read
  exact ⟨dtstart,read,seriesPlans read s clock short ok⟩

end

/- The ends that the rows of an event should have by their starts: of a series from an instant on, and up to the marker
if there is one. -/
def Fits (intl : Intl) (timing : EventTiming) (timeZone : String) (through : Option Instant) (since : Instant)
    (ends : Instant → Option Instant) : Option RecurrenceRule → Prop
  | none => ∃ p, planOneOff intl timeZone timing = some p ∧ p.endsAt.isSome ∧
    ∀ x, ends x = if p.startsAt = x then p.endsAt else none
  | some rule => ∃ zone dtstart, intl timeZone = some zone ∧ dtstartOf zone timing = some dtstart ∧
    ∀ x, since ≤ x → (∀ marker, through = some marker → x < marker) →
      (∀ y, Scheduled rule dtstart zone y → y.instant = x →
        ∃ e, planOccurrence zone timing y = some ⟨x,some e⟩ ∧ ends x = some e) ∧
      ∀ e, ends x = some e → ∃ y, Scheduled rule dtstart zone y ∧ planOccurrence zone timing y = some ⟨x,some e⟩

def StopsAt (stop : Instant) (through : Option Instant) (ends : Instant → Option Instant) : Prop :=
  ∀ marker, through = some marker → marker = stop ∧ ∀ x e, ends x = some e → x < stop

section
variable {intl : Intl} {s next : Store} {event marked : CalendarEvent} {now since later : Instant} {done : Rematerialised}
  {timing : EventTiming} {timeZone : String} {through : Option Instant} {ends ends' : Instant → Option Instant}
  {rule : Option RecurrenceRule}

theorem Fits.mono (fits : Fits intl timing timeZone through since ends rule) (le : since ≤ later)
    (same : ∀ x, later ≤ x ∨ rule = none → ends' x = ends x) : Fits intl timing timeZone through later ends' rule := by
  cases rule with
  | none =>
    obtain ⟨p,planned,given,all⟩ := fits
    exact ⟨p,planned,given,fun x => (same x (.inr rfl)).trans (all x)⟩
  | some rule =>
    obtain ⟨zone,dtstart,named,read,all⟩ := fits
    refine ⟨zone,dtstart,named,read,fun x above below => ?_⟩
    rw [same x (.inl above)]
    exact all x (le_trans le above) below

theorem windowStarts (now : Instant) : (materialisationWindow now).start ≤ (materialisationWindow now).stop := by
  change (_ : Int) - _ ≤ _ + _
  have positive : (0 : Int) ≤ trailingDays * msPerDay := by decide
  have positive' : (0 : Int) ≤ horizonDays * msPerDay := by decide
  omega

theorem horizonWidth (now : Instant) :
    (materialisationWindow now).stop - (materialisationWindow now).start ≤ 800 * msPerDay := by
  change ((_ : Int) + _) - (_ - _) ≤ _
  have width : ((horizonDays : Int) + trailingDays) * msPerDay ≤ 800 * msPerDay := by decide
  rw [Int.add_mul] at width
  omega

theorem windowWidth (now : Instant) :
    (materialisationWindow now).stop - (materialisationWindow now).start ≤ 4000 * msPerDay :=
  (horizonWidth now).trans (by decide)

theorem oneOffFits {p : PlannedOccurrence} (planned : planOneOff intl timeZone timing = some p)
    (given : ∃ endsAt, p.endsAt = some endsAt) (all : ∀ x, ends x = plannedEnd [p] x) :
    Fits intl timing timeZone through since ends none := by
  obtain ⟨endsAt,is⟩ := given
  refine ⟨p,planned,by rw [is]; rfl,fun x => (all x).trans ?_⟩
  by_cases here : p.startsAt = x
  · simp [plannedEnd,here]
  · simp [plannedEnd,here]

theorem seriesFits {zone : Zone} {rule : RecurrenceRule} {dtstart : LocalDateTime} {window : Window} {plan : OccurrencePlan}
    (named : intl timeZone = some zone) (read : dtstartOf zone timing = some dtstart)
    (plans : Plans zone rule timing dtstart window plan) (given : ∀ p ∈ plan.planned, ∃ endsAt, p.endsAt = some endsAt)
    (all : ∀ x, window.start ≤ x → ends x = plannedEnd plan.planned x) :
    Fits intl timing timeZone plan.materialisedThrough window.start ends (some rule) := by
  refine ⟨zone,dtstart,named,read,fun x above below => ⟨fun y scheduled here => ?_,fun e has => ?_⟩⟩
  · have before : y.instant < window.stop := by
      rcases plans.marker with marker | ⟨-,none_⟩
      · exact here ▸ below _ marker
      · exact none_ y scheduled.produced (here ▸ above)
    obtain ⟨p,mem,planned⟩ := plans.complete y scheduled (here ▸ above) before
    obtain ⟨e,is⟩ := given p mem
    have start := (plannedStart planned).trans here
    refine ⟨e,planned.trans (congrArg some ?_),?_⟩
    · rw [← start,← is]
    · rw [all x above,← start,plannedEndOf plans.distinct mem,is]
  · rw [all x above] at has
    obtain ⟨p,found,is⟩ := Option.bind_eq_some_iff.mp has
    obtain ⟨y,scheduled,planned⟩ := plans.produced p (List.mem_of_find?_eq_some found)
    have start := List.find?_some found
    simp only [decide_eq_true_eq] at start
    exact ⟨y,scheduled,planned.trans (congrArg some (by rw [← start,← is]))⟩

theorem rematerialised (dated : event.timing.Dated)
    (ok : rematerialise intl s event now = .ok (.ok (done,marked,next))) : Store.Beside event.id s next ∧
      ∃ through, marked = event.recordMaterialisedThrough through ∧ Fits intl event.timing event.timeZone through
        (materialisationWindow now).start (next.endAt event.id) event.recurrenceRule ∧
          StopsAt (materialisationWindow now).stop through (next.endAt event.id) := by
  obtain ⟨result,planned,ok⟩ := bindSource ok
  have plans := orThrowSource planned
  cases result with
  | error e => cases ok
  | ok plan =>
    obtain ⟨⟨counts,filled⟩,applied,ok⟩ := bindSource ok
    cases ok
    unfold planOccurrences at plans
    cases rule : event.recurrenceRule with
    | none =>
      simp only [rule] at plans
      obtain ⟨p,oneOff,is⟩ := Option.map_eq_some_iff.mp plans
      cases is
      obtain ⟨beside,given,ends⟩ := reconciled listForEventLists (by simp) (fun _ _ => rfl) applied
      exact ⟨beside,none,rfl,oneOffFits oneOff (given p List.mem_cons_self) (fun x => ends x),fun marker is => by cases is⟩
    | some rule =>
      simp only [rule,bind,Option.bind_eq_some_iff] at plans
      obtain ⟨zone,named,series⟩ := plans
      obtain ⟨dtstart,read,plans⟩ := seriesPlanned dated (windowWidth now) series
      have inScope_ : ∀ x, inScope plan.scopeFrom x = decide ((materialisationWindow now).start ≤ x) := by
        intro x
        rw [plans.scope]
        rfl
      obtain ⟨beside,given,ends⟩ := reconciled listForEventLists plans.distinct
        (fun p mem => by rw [inScope_]; exact decide_eq_true (plans.within p mem).1) applied
      have above : ∀ x, (materialisationWindow now).start ≤ x → next.endAt event.id x = plannedEnd plan.planned x := by
        intro x since
        rw [ends,inScope_,if_pos (decide_eq_true since)]
      refine ⟨beside,_,rfl,seriesFits named read plans given above,fun marker is => ?_⟩
      rcases plans.marker with stop | ⟨none_,-⟩
      swap
      · rw [none_] at is
        cases is
      refine ⟨Option.some.inj (is.symm.trans stop),fun x e has => ?_⟩
      -- What is there is planned, or lies before the window.
      by_cases since : (materialisationWindow now).start ≤ x
      · rw [above x since] at has
        obtain ⟨p,found,-⟩ := Option.bind_eq_some_iff.mp has
        have start := List.find?_some found
        simp only [decide_eq_true_eq] at start
        exact start ▸ (plans.within p (List.mem_of_find?_eq_some found)).2
      · exact lt_of_lt_of_le (not_le.mp since) (windowStarts now)

end
end FamilyPlatform.Calendar
