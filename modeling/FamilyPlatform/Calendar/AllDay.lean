import FamilyPlatform.Calendar.Audited
import FamilyPlatform.Calendar.Covered

/-! The dates of all-day events that repeat. They are kept as instants only, and what is read back from those are the
dates of the rule, whatever the clocks of the zone do at midnight. -/
namespace FamilyPlatform.Calendar
open ZonedTime Civil Recurrence RecurrenceRule

def datesOf (startDate endDate : LocalDate) (y : ExpandedOccurrence) : Option LocalDate × Option (Option LocalDate) :=
  (some y.reading.toDate, some (some (dateOf (y.reading.toDate.number + (endDate.number - startDate.number)))))

def EventRow.Current (row : EventRow) (since x : Instant) : Prop :=
  since ≤ x ∧ ∀ marker, row.materialisedThrough = some marker → x < marker

section
variable {zone : Zone} {rule : RecurrenceRule} {startDate endDate : LocalDate} {y y' : ExpandedOccurrence} {intl : Intl}
  {row : EventRow} {o : EventOccurrence} {p : PlannedOccurrence}

structure AtMidnight (zone : Zone) (startDate : LocalDate) (y : ExpandedOccurrence) : Prop where
  real : y.reading.toDate.Real
  since : startDate.number ≤ y.reading.toDate.number
  midnight : y.reading = atTime y.reading.toDate 0 0 0
  resolved : localToInstant zone y.reading = some y.instant
  on : (instantToLocal zone y.instant).map LocalDateTime.toDate = some y.reading.toDate

theorem producedMidnight (dated : Dated startDate) (produced : Produces rule (atTime startDate 0 0 0) zone y) :
    AtMidnight zone startDate y := by
  have clock : LocalDateTime.Clock (atTime startDate 0 0 0) := by simp [LocalDateTime.Clock,atTime]
  obtain ⟨k,mem⟩ := @producesOccurs (expansionOf rule (atTime startDate 0 0 0) zone ⟨0,0⟩) y produced
  have occurs := @memOccurrencesIn (expansionOf rule (atTime startDate 0 0 0) zone ⟨0,0⟩) dated.start clock k y mem
  have zero : clockMs y.reading = 0 := occurs.clock.trans (by simp [expansionOf,clockMs,atTime])
  refine ⟨occurs.inPeriod.real,occurs.since,?_,occurs.resolved,
    midnightDate occurs.inPeriod.real occurs.clocked zero occurs.inPeriod.low occurs.resolved⟩
  obtain ⟨⟨date,hour,minute,second⟩,instant⟩ := y
  obtain ⟨hourLow,-,minuteLow,-,secondLow,-⟩ := occurs.clocked
  simp only [clockMs] at zero hourLow minuteLow secondLow
  simp only [atTime,LocalDateTime.mk.injEq,true_and]
  omega

theorem AtMidnight.same (at_ : AtMidnight zone startDate y) (at' : AtMidnight zone startDate y')
    (date : y.reading.toDate = y'.reading.toDate) : y = y' := by
  have reading : y.reading = y'.reading := at_.midnight.trans (date ▸ at'.midnight.symm)
  have resolved := at_.resolved
  rw [reading,at'.resolved] at resolved
  obtain ⟨reading',instant'⟩ := y'
  cases y
  cases reading
  cases resolved
  rfl

theorem AtMidnight.sameInstant (at_ : AtMidnight zone startDate y) (at' : AtMidnight zone startDate y')
    (instant : y.instant = y'.instant) : y = y' := by
  have on := at_.on
  rw [instant,at'.on] at on
  exact at_.same at' (Option.some.inj on).symm

theorem viewedDates (dated : Dated startDate) (datedEnd : Dated endDate) (at_ : AtMidnight zone startDate y)
    (planned : planOccurrence zone (.allDay startDate endDate) y = some p) (timing : row.timing = .allDay startDate endDate)
    (named : intl row.timeZone = some zone) (start : o.startsAt = y.instant) :
    viewDates intl o row = .ok (datesOf startDate endDate y) := by
  have low := dated.start.low
  have lowEnd := datedEnd.start.low
  have last := dated.last
  have lastEnd := datedEnd.last
  have since := at_.since
  have epoch := toEpochDayReal dated.real (by unfold earliest; omega) (by unfold latest at *; omega)
  have epochEnd := toEpochDayReal datedEnd.real (by unfold earliest; omega) (by unfold latest at *; omega)
  have room : y.reading.toDate.number ≤ latest ∧ y.reading.toDate.number + (endDate.number - startDate.number + 1) ≤ latest := by
    simp only [planOccurrence,epoch,epochEnd,bind,Option.bind_some,Option.bind_eq_some_iff] at planned
    obtain ⟨afterLast,added,-⟩ := planned
    obtain ⟨_,told,-⟩ := Option.bind_eq_some_iff.mp added
    exact ⟨(toEpochDaySource at_.real (by unfold earliest; omega) told).2,
      (addDaysSource at_.real (by unfold earliest; omega) added).2⟩
  obtain ⟨reading,read,date⟩ := Option.map_eq_some_iff.mp at_.on
  have added : addDays y.reading.toDate (endDate.number - startDate.number) =
      some (dateOf (y.reading.toDate.number + (endDate.number - startDate.number))) :=
    addDaysReal at_.real (by unfold earliest; omega) room.1 (by unfold latest; omega) (by omega)
  simp only [viewDates,timing,named,start,read,epoch,epochEnd,orThrow,bind,Except.bind,Option.bind_some,datesOf,date,added]
  rfl

end

section
variable {intl : Intl} {s : Store} {q : RangeQuery} {views : List OccurrenceView} {v w : OccurrenceView}

theorem memViews (ok : s.listVisibleInRange intl q = .ok views) : v ∈ views ↔ ∃ o ∈ s.occurrences.rows,
    s.selects q o = true ∧ ∃ row, s.events.find o.eventId = some row ∧
      viewOf intl o row (s.participantsOf o.eventId) = .ok v := by
  rw [mapMSource ok]
  simp only [List.mem_filterMap,List.mem_insertionSort,List.mem_filter,Option.map_eq_some_iff]
  constructor
  · rintro ⟨_,⟨o,⟨mem,selected⟩,row,found,rfl⟩,viewed⟩
    exact ⟨o,mem,selected,row,found,viewed⟩
  · rintro ⟨o,mem,selected,row,found,viewed⟩
    exact ⟨(o,row),⟨o,⟨mem,selected⟩,row,found,rfl⟩,viewed⟩

theorem viewFields {o : EventOccurrence} {row : EventRow} {participants : List FamilyMemberId}
    (ok : viewOf intl o row participants = .ok v) : v.occurrenceId = o.id ∧ v.eventId = o.eventId ∧
      v.startsAt = o.startsAt ∧ v.endsAt = o.endsAt ∧ viewDates intl o row = .ok (v.startDate,v.endDate) := by
  obtain ⟨⟨startDate,endDate⟩,dates,ok⟩ := bindSource ok
  cases ok
  exact ⟨rfl,rfl,rfl,rfl,dates⟩

theorem viewsDistinct (ok : s.listVisibleInRange intl q = .ok views) : (views.map OccurrenceView.occurrenceId).Nodup := by
  have selected : ((s.occurrences.rows.filter (s.selects q)).insertionSort rangeOrder).Pairwise
      (fun a b => a.id ≠ b.id) := by
    have kept : ((s.occurrences.rows.filter (s.selects q)).map EventOccurrence.id).Nodup :=
      s.occurrences.distinct.sublist (List.filter_sublist.map _)
    rw [← ((List.perm_insertionSort rangeOrder (s.occurrences.rows.filter (s.selects q))).map _).nodup_iff] at kept
    exact List.pairwise_map.mp kept
  have joined : (((s.occurrences.rows.filter (s.selects q)).insertionSort rangeOrder).filterMap (fun o =>
      (s.events.find o.eventId).map (fun row => (o, row)))).Pairwise (fun a b => a.1.id ≠ b.1.id) := by
    refine List.pairwise_filterMap.mpr (selected.imp (fun apart x is y is' => ?_))
    obtain ⟨_,-,rfl⟩ := Option.map_eq_some_iff.mp is
    obtain ⟨_,-,rfl⟩ := Option.map_eq_some_iff.mp is'
    exact apart
  have viewed : (views.map (Except.ok : OccurrenceView → Except Thrown OccurrenceView)).Pairwise
      (fun x y => ∀ v w, x = .ok v → y = .ok w → v.occurrenceId ≠ w.occurrenceId) := by
    rw [← mapMResults ok,List.pairwise_map]
    refine joined.imp (fun apart v w left right => ?_)
    rw [(viewFields left).1,(viewFields right).1]
    exact apart
  rw [List.pairwise_map] at viewed
  exact List.pairwise_map.mpr (viewed.imp (fun apart => apart _ _ rfl rfl))

end

/- The rows of an all-day series from an instant on and before its marker: each is read back as the dates of an
occurrence, each occurrence as those of one row; and so are the lists of all ranges. -/
structure ReadBack (occurs : ExpandedOccurrence → Prop) (intl : Intl) (since : Instant) (s : Store) (row : EventRow)
    (startDate endDate : LocalDate) : Prop where
  read : ∀ o ∈ s.rowsOf row.id, row.Current since o.startsAt →
    ∃ y, occurs y ∧ y.instant = o.startsAt ∧ viewDates intl o row = .ok (datesOf startDate endDate y)
  once : ∀ y, occurs y → row.Current since y.instant → ∃! o, o ∈ s.rowsOf row.id ∧ row.Current since o.startsAt ∧
    ∃ last, viewDates intl o row = .ok (some y.reading.toDate,last)
  distinct : ∀ q views, s.listVisibleInRange intl q = .ok views → (views.map OccurrenceView.occurrenceId).Nodup
  listed : ∀ q views, s.listVisibleInRange intl q = .ok views → ∀ v ∈ views, v.eventId = row.id →
    row.Current since v.startsAt →
      ∃ y, occurs y ∧ y.instant = v.startsAt ∧ (v.startDate,v.endDate) = datesOf startDate endDate y
  listedOnce : ∀ q views, s.listVisibleInRange intl q = .ok views → ∀ y, occurs y → row.Current since y.instant →
    ∀ o ∈ s.rowsOf row.id, o.startsAt = y.instant → s.selects q o = true →
      ∃! v, v ∈ views ∧ v.eventId = row.id ∧ row.Current since v.startsAt ∧ v.startDate = some y.reading.toDate

def DatesBack (occurs : RecurrenceRule → LocalDateTime → Zone → ExpandedOccurrence → Prop) (intl : Intl) (since : Instant)
    (s : Store) (id : CalendarEventId) : Prop :=
  ∀ row startDate endDate text, s.events.find id = some row → row.timing = .allDay startDate endDate →
    row.recurrenceRule = some text → ∃ rule zone, rule.toText = text ∧ (∀ read, parse text = .ok read → read = rule) ∧
      intl row.timeZone = some zone ∧
        ReadBack (occurs rule (atTime startDate 0 0 0) zone) intl since s row startDate endDate

section
variable {intl : Intl} {s : Store} {id : CalendarEventId} {since : Instant}

theorem memRowsOf {o : EventOccurrence} (mem : o ∈ s.rowsOf id) : s.slot id o.startsAt = some o := by
  rw [← memRowsAt,Store.rowsAt,List.mem_filter]
  exact ⟨mem,by simp⟩

theorem viewsOwn {row : EventRow} {q : RangeQuery} {views : List OccurrenceView}
    {v : OccurrenceView} (found : s.events.find row.id = some row)
    (ok : s.listVisibleInRange intl q = .ok views) (mem : v ∈ views) (event : v.eventId = row.id) :
    ∃ o ∈ s.rowsOf row.id, v.startsAt = o.startsAt ∧ viewOf intl o row (s.participantsOf row.id) = .ok v ∧
      viewDates intl o row = .ok (v.startDate,v.endDate) := by
  obtain ⟨o,there,-,row',found',viewed⟩ := (memViews ok).mp mem
  obtain ⟨-,isEvent,start,-,dates⟩ := viewFields viewed
  have isOwn : o.eventId = row.id := isEvent.symm.trans event
  rw [isOwn] at found' viewed
  cases found.symm.trans found'
  exact ⟨o,List.mem_filter.mpr ⟨there,by simpa using isOwn⟩,start,viewed,dates⟩

/- The rows of an all-day series are those of its occurrences, each shown as the dates of the one it is a row of. -/
structure RowsShown (occurs : ExpandedOccurrence → Prop) (intl : Intl) (since : Instant) (s : Store) (row : EventRow)
    (startDate endDate : LocalDate) (zone : Zone) : Prop where
  midnight : ∀ y, occurs y → AtMidnight zone startDate y
  own : ∀ o ∈ s.rowsOf row.id, row.Current since o.startsAt →
    ∃ y, occurs y ∧ y.instant = o.startsAt ∧ viewDates intl o row = .ok (datesOf startDate endDate y)
  there : ∀ y, occurs y → row.Current since y.instant → ∃ o ∈ s.rowsOf row.id, o.startsAt = y.instant

section
variable {occurs : ExpandedOccurrence → Prop} {row : EventRow} {startDate endDate : LocalDate} {zone : Zone}
  (shown : RowsShown occurs intl since s row startDate endDate zone)
include shown

theorem shownAs {y : ExpandedOccurrence} {o : EventOccurrence} (scheduled : occurs y) (mem : o ∈ s.rowsOf row.id)
    (instant : o.startsAt = y.instant) (current : row.Current since o.startsAt) :
    viewDates intl o row = .ok (datesOf startDate endDate y) := by
  obtain ⟨y',scheduled',instant',dates⟩ := shown.own o mem current
  obtain rfl := (shown.midnight y' scheduled').sameInstant (shown.midnight y scheduled) (instant'.trans instant)
  exact dates

/- Of one date there is one occurrence, and so one row. -/
theorem shownOnce {y : ExpandedOccurrence} {o o' : EventOccurrence} {last : Option (Option LocalDate)} (scheduled : occurs y)
    (mem : o ∈ s.rowsOf row.id) (instant : o.startsAt = y.instant) (mem' : o' ∈ s.rowsOf row.id)
    (current : row.Current since o'.startsAt) (dates : viewDates intl o' row = .ok (some y.reading.toDate,last)) :
    o' = o := by
  obtain ⟨y',scheduled',instant',dates'⟩ := shown.own o' mem' current
  have date : some y.reading.toDate = some y'.reading.toDate :=
    congrArg Prod.fst (Except.ok.inj (dates.symm.trans dates'))
  obtain rfl := (shown.midnight y scheduled).same (shown.midnight y' scheduled') (Option.some.inj date)
  have slot := memRowsOf mem'
  rw [← instant',← instant,memRowsOf mem] at slot
  exact (Option.some.inj slot).symm

theorem readBack (found : s.events.find row.id = some row) : ReadBack occurs intl since s row startDate endDate where
  read := shown.own
  once y scheduled current := by
    obtain ⟨o,mem,instant⟩ := shown.there y scheduled current
    have current' : row.Current since o.startsAt := instant ▸ current
    refine ⟨o,⟨mem,current',_,shownAs shown scheduled mem instant current'⟩,?_⟩
    rintro o' ⟨mem',is,last,dates⟩
    exact shownOnce shown scheduled mem instant mem' is dates
  distinct q views ok := viewsDistinct ok
  listed q views ok v mem event current := by
    obtain ⟨o,there,start,-,dates⟩ := viewsOwn found ok mem event
    obtain ⟨y,scheduled,instant,dates'⟩ := shown.own o there (start ▸ current)
    exact ⟨y,scheduled,instant.trans start.symm,Except.ok.inj (dates.symm.trans dates')⟩
  listedOnce q views ok y scheduled current o mem instant selected := by
    have current' : row.Current since o.startsAt := instant ▸ current
    have dates := shownAs shown scheduled mem instant current'
    obtain ⟨there,isOwn⟩ := List.mem_filter.mp mem
    rw [decide_eq_true_eq] at isOwn
    obtain ⟨v,viewed⟩ : ∃ v, viewOf intl o row (s.participantsOf row.id) = .ok v := by
      simp only [viewOf,dates]
      exact ⟨_,rfl⟩
    obtain ⟨-,event,start,-,dates'⟩ := viewFields viewed
    refine ⟨v,⟨(memViews ok).mpr ⟨o,there,selected,row,isOwn ▸ found,isOwn ▸ viewed⟩,event.trans isOwn,start ▸ current',?_⟩,?_⟩
    · exact congrArg Prod.fst (Except.ok.inj (dates'.symm.trans dates))
    · rintro w ⟨memW,eventW,currentW,dateW⟩
      obtain ⟨o',mem',start',viewed',datesW⟩ := viewsOwn found ok memW eventW
      rw [dateW] at datesW
      obtain rfl := shownOnce shown scheduled mem instant mem' (start' ▸ currentW) datesW
      exact Except.ok.inj (viewed'.symm.trans viewed)

end

theorem keptDates (kept : Kept intl since s id) : DatesBack Scheduled intl since s id := by
  intro row startDate endDate text found timing ruled
  obtain ⟨dated,rule,exact_,written,fits⟩ := kept row found
  obtain rfl : row.id = id := (Table.findSource found).2
  cases rule with
  | none =>
    rw [ruled] at written
    cases written
  | some rule =>
    obtain rfl : text = rule.toText := Option.some.inj (ruled.symm.trans written)
    rw [timing] at dated fits
    obtain ⟨zone,dtstart,named,start,all⟩ := fits
    cases start
    have midnight : ∀ y, Scheduled rule (atTime startDate 0 0 0) zone y → AtMidnight zone startDate y :=
      fun y scheduled => producedMidnight dated.1 scheduled.produced
    refine ⟨rule,zone,rfl,fun read again => parseAgain (exact_ rule rfl) again,named,
      @readBack _ _ _ _ _ _ _ zone ⟨midnight,?_,?_⟩ found⟩
    · intro o mem current
      obtain ⟨y,scheduled,planned⟩ := (all o.startsAt current.1 current.2).2 o.endsAt
        (by rw [Store.endAt,memRowsOf mem]; rfl)
      have instant := plannedStart planned
      exact ⟨y,scheduled,instant.symm,viewedDates dated.1 dated.2 (midnight y scheduled) planned timing named instant⟩
    · intro y scheduled current
      obtain ⟨e,-,ends⟩ := (all y.instant current.1 current.2).1 y scheduled rfl
      obtain ⟨o,slot,-⟩ := Option.map_eq_some_iff.mp ends
      obtain ⟨mem,own,start⟩ := Store.slotOwn slot
      exact ⟨o,List.mem_filter.mpr ⟨mem,by simpa using own⟩,start⟩

end

/-- After every step of every run, under a clock that does not go back, the rows of an all-day series from the trailing
edge on and up to its marker are read back as the dates of its rule, with as many days as the event lasts. -/
theorem runDates (intl : Intl) {steps : List Step} {now : Instant} (clock : (steps.map Step.now).Pairwise (· ≤ ·))
    (dated : ∀ step ∈ steps, step.Dated) (latest : (steps.map Step.now).getLast? = some now) (id : CalendarEventId) :
    DatesBack Scheduled intl (materialisationWindow now).start (afterSteps intl steps) id :=
  keptDates (afterKept clock dated latest id)

def everywhereToronto : Intl := fun _ => some toronto

def springFair : NewEvent where
  title := "Spring fair"
  description := none
  location := none
  category := none
  timing := .allDay ⟨1919,3,30⟩ ⟨1919,3,31⟩
  timeZone := "America/Toronto"
  recurrenceRule := some "FREQ=DAILY;COUNT=3"
  participants := []
  attachmentRefs := []

def fairSteps : List Step := [.create { parent with now := -1602000000000 } 0 springFair]

theorem fairDates : DatesBack Scheduled everywhereToronto (materialisationWindow (-1602000000000)).start
      (afterSteps everywhereToronto fairSteps) 0 ∧
    ((afterSteps everywhereToronto fairSteps).listVisibleInRange everywhereToronto
      ⟨-1602000000000,-1601000000000,[]⟩).map (fun views => views.map (fun v => (v.startDate,v.endDate))) =
    .ok [(some ⟨1919,3,30⟩,some (some ⟨1919,3,31⟩)),(some ⟨1919,3,31⟩,some (some ⟨1919,4,1⟩)),
      (some ⟨1919,4,1⟩,some (some ⟨1919,4,2⟩))] := by
  refine ⟨@runDates everywhereToronto fairSteps (-1602000000000) (by decide) (fun step mem => ?_) rfl 0,by decide +kernel⟩
  rw [List.mem_singleton.mp mem]
  exact ⟨⟨by decide,by decide,by decide⟩,by decide,by decide,by decide⟩

/- Of a rule with more dates than an expansion has periods those at the end have no rows. -/
theorem foundingDatesMissing : ¬ ∀ (intl : Intl) (steps : List Step) (now : Instant),
    (steps.map Step.now).Pairwise (· ≤ ·) → (∀ step ∈ steps, step.Dated) → (steps.map Step.now).getLast? = some now →
      ∀ id, DatesBack Produces intl (materialisationWindow now).start (afterSteps intl steps) id := by
  intro all
  obtain ⟨dated,row,found,timing,timeZone,text,-,later⟩ := foundingEntered
  have every : ∀ step ∈ [Step.create inNewYear 0 foundingDay], step.Dated :=
    fun step mem => List.mem_singleton.mp mem ▸ dated
  obtain ⟨rule,zone,-,is,named,owed⟩ := all everywhereUtc [.create inNewYear 0 foundingDay] 1767225600000 (by decide)
    every rfl 0 row ⟨1400,1,1⟩ ⟨1400,1,1⟩ _ found timing text
  obtain ⟨rule',zone',-,is',named',read⟩ := keptDates (@afterKept everywhereUtc _ _ (by decide) every rfl 0)
    row ⟨1400,1,1⟩ ⟨1400,1,1⟩ _ found timing text
  have again : parse everyFoundingDay.toText = .ok everyFoundingDay := by decide +kernel
  obtain rfl := is _ again
  obtain rfl := is' _ again
  cases named
  cases named'
  obtain ⟨o,⟨mem,current,-⟩,-⟩ := owed.once june juneProduced ⟨by decide,later⟩
  obtain ⟨y,scheduled,instant,-⟩ := read.read o mem current
  have before := foundingUnreached (scheduledVisited.mp scheduled)
  rw [instant] at before
  exact absurd current.1 (not_le.mpr before)

end FamilyPlatform.Calendar
