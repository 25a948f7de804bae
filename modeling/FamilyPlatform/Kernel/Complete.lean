import Mathlib.Data.List.TakeWhile
import FamilyPlatform.Kernel.Next

/-! An expansion leaves nothing of its window out, unless a COUNT takes it through more
periods than it visits, and nothing comes after a window in which a rule is exhausted. -/
namespace FamilyPlatform.Recurrence
open ZonedTime Civil RecurrenceRule

/- An occurrence of the rule from the anchor, as a walk through all periods has it. -/
def Produces (rule : RecurrenceRule) (anchor : LocalDateTime) (zone : Zone) (x : ExpandedOccurrence) : Prop :=
  ∃ window periods, x ∈ plain ⟨rule,anchor,zone,window,maxOccurrences⟩ periods

theorem takeWhileMore {α : Type} {p : α → Bool} {xs : List α} (ys : List α) {x : α} (mem : x ∈ xs.takeWhile p) :
    x ∈ (xs ++ ys).takeWhile p := by
  rw [List.takeWhile_append]
  split
  · exact List.mem_append_left _ (List.takeWhile_subset p mem)
  · exact mem

theorem upToCountMore (rule : RecurrenceRule) (xs ys : List ExpandedOccurrence) :
    ∃ more, upToCount rule (xs ++ ys) = upToCount rule xs ++ more := by
  unfold upToCount
  split
  · rw [List.take_append]
    exact ⟨_,rfl⟩
  · exact ⟨_,rfl⟩
  · exact ⟨_,rfl⟩

theorem upToCountSubset (rule : RecurrenceRule) (xs : List ExpandedOccurrence) : upToCount rule xs ⊆ xs := by
  unfold upToCount
  split
  · exact List.take_subset _ _
  · exact fun _ mem => mem
  · exact fun _ mem => mem

section
variable {input : ExpandInput} {x y : ExpandedOccurrence}

theorem plainMore {few more : Nat} (le : few ≤ more) (mem : x ∈ plain input few) : x ∈ plain input more := by
  obtain ⟨extra,rfl⟩ := Nat.exists_eq_add_of_le le
  obtain ⟨there,inside⟩ := List.mem_filter.mp mem
  refine List.mem_filter.mpr ⟨?_,inside⟩
  rw [List.range_eq_range',← @List.range'_append_1 0 few extra,List.flatMap_append,← List.range_eq_range']
  obtain ⟨others,is⟩ := upToCountMore input.rule ((List.range few).flatMap (occurrencesIn input))
    ((List.range' (0 + few) extra).flatMap (occurrencesIn input))
  rw [is]
  exact takeWhileMore others there

theorem producesPlain (produced : Produces input.rule input.dtstart input.zone x) (inside : within input.window x = true) :
    ∃ enough, ∀ more ≥ enough, x ∈ plain input more := by
  obtain ⟨window,periods,mem⟩ := produced
  refine ⟨periods,fun more le => plainMore le ?_⟩
  exact List.mem_filter.mpr ⟨(List.mem_filter.mp mem).1,inside⟩

theorem producesOccurs (produced : Produces input.rule input.dtstart input.zone x) : ∃ k, x ∈ occurrencesIn input k := by
  obtain ⟨window,periods,mem⟩ := produced
  obtain ⟨k,occurs⟩ := plainOccurs mem
  exact ⟨k,occurs⟩

theorem producesSource (produced : Produces input.rule input.dtstart input.zone x) :
    beyondUntil input.rule x.reading x.instant = false ∧
      ∃ enough, ∀ more ≥ enough, x ∈ upToCount input.rule ((List.range more).flatMap (occurrencesIn input)) := by
  obtain ⟨window,periods,mem⟩ := produced
  have place : ∀ more ≥ periods, x ∈ (upToCount input.rule ((List.range more).flatMap (occurrencesIn input))).takeWhile
      (fun x => !beyondUntil input.rule x.reading x.instant) :=
    fun more le => (List.mem_filter.mp (plainMore le mem)).1
  refine ⟨by simpa using List.mem_takeWhile_imp (place periods le_rfl),periods,fun more le => ?_⟩
  exact List.takeWhile_subset _ (place more le)

def Beyond (input : ExpandInput) (produced : Nat) (x : ExpandedOccurrence) : Prop :=
  beyondUntil input.rule x.reading x.instant = true ∨ beyondCount input.rule (produced + 1) = true

theorem visitBeyond {progress : Progress} {date : Option LocalDate} {e : Expansion}
    (found : visit input progress date = some (.returned (.ok e))) (exhausted : e.exhausted = true) :
    ∃ z, occurrenceAt input date = some z ∧ Beyond input progress.produced z := by
  simp only [visit,bind,Option.bind_eq_some_iff] at found
  obtain ⟨d,rfl,found⟩ := found
  simp only [occurrenceAt,bind,Option.bind_some]
  generalize atTime d input.dtstart.hour input.dtstart.minute input.dtstart.second = reading at *
  split at found
  · cases found
  rename_i since
  obtain ⟨instant,resolved,found⟩ := Option.bind_eq_some_iff.mp found
  simp only [if_neg since,resolved,Option.bind_some]
  refine ⟨_,rfl,?_⟩
  split at found
  · exact .inl (by assumption)
  split at found
  · exact .inr (by assumption)
  split at found
  · cases found
    cases exhausted
  split at found
  · cases found
  split at found <;> cases found

theorem visitAllBeyond {progress : Progress} {dates : List (Option LocalDate)} {e : Expansion}
    (found : visitAll input progress dates = some (.returned (.ok e))) (exhausted : e.exhausted = true) :
    ∃ pre z post, dates.filterMap (occurrenceAt input) = pre ++ z :: post ∧ Passed input progress.produced pre ∧
      Beyond input (progress.produced + pre.length) z := by
  induction dates generalizing progress with
  | nil => cases found
  | cons date rest ih =>
    simp only [visitAll,bind,Option.bind_eq_some_iff] at found
    obtain ⟨first,visited,found⟩ := found
    have split : (date :: rest).filterMap (occurrenceAt input) =
        (occurrenceAt input date).toList ++ rest.filterMap (occurrenceAt input) := by
      cases is : occurrenceAt input date <;> simp [is]
    rw [split]
    cases first with
    | returned result =>
      cases found
      obtain ⟨z,is,beyond⟩ := visitBeyond visited exhausted
      exact ⟨[],z,_,by rw [is]; rfl,⟨by simp,.inl rfl⟩,beyond⟩
    | next later =>
      obtain ⟨pre,z,post,is,passed,beyond⟩ := ih found
      have walked := visitWalked visited
      generalize (occurrenceAt input date).toList = here at *
      cases walked with
      | next before =>
        refine ⟨here ++ pre,z,post,by rw [is,List.append_assoc],before.append passed,?_⟩
        rw [List.length_append,← Nat.add_assoc]
        exact beyond

theorem walkBeyond {windowEnd : LocalDate} {fuel k : Nat} {progress : Progress} {e : Expansion}
    (found : walk input windowEnd fuel k progress = some (.returned (.ok e))) (exhausted : e.exhausted = true) :
    ∃ length pre z post, (List.range' k length).flatMap (occurrencesIn input) = pre ++ z :: post ∧
      Passed input progress.produced pre ∧ Beyond input (progress.produced + pre.length) z := by
  induction fuel generalizing k progress with
  | zero => cases found
  | succ fuel ih =>
    unfold walk at found
    split at found
    · cases found
      cases exhausted
    simp only [bind,Option.bind_eq_some_iff] at found
    obtain ⟨first,visited,found⟩ := found
    cases first with
    | returned result =>
      cases found
      obtain ⟨pre,z,post,is,beyond⟩ := visitAllBeyond visited exhausted
      exact ⟨1,pre,z,post,by simpa [occurrencesIn] using is,beyond⟩
    | next later =>
      obtain ⟨length,pre,z,post,is,passed,beyond⟩ := ih found
      have walked := visitAllWalked visited
      rw [← occurrencesIn] at walked
      refine ⟨length + 1,?_⟩
      rw [List.range'_succ,List.flatMap_cons]
      generalize occurrencesIn input k = here at *
      cases walked with
      | next before =>
        refine ⟨here ++ pre,z,post,by rw [is,List.append_assoc],before.append passed,?_⟩
        rw [List.length_append,← Nat.add_assoc]
        exact beyond

end

section
variable {input : ExpandInput} (s : StartDay input.dtstart.toDate) (clock : LocalDateTime.Clock input.dtstart)
  {x : ExpandedOccurrence}
include s clock

omit s clock in
/- What UNTIL lets through comes before all that is beyond it. -/
theorem untilPassed {skipped pre after : List ExpandedOccurrence} {z : ExpandedOccurrence}
    (ordered : (skipped ++ (pre ++ z :: after)).Pairwise Precedes)
    (occurs : ∀ w ∈ skipped ++ (pre ++ z :: after), ∃ k, OccursIn input k w)
    (beyond : beyondUntil input.rule z.reading z.instant = true) (mem : x ∈ skipped ++ (pre ++ z :: after))
    (within : beyondUntil input.rule x.reading x.instant = false) : x ∈ skipped ∨ x ∈ pre := by
  rcases List.mem_append.mp mem with before | mem
  · exact .inl before
  rcases List.mem_append.mp mem with passed | mem
  · exact .inr passed
  exfalso
  rcases List.mem_cons.mp mem with rfl | follows
  · rw [beyond] at within
    cases within
  · have precedes := (List.pairwise_cons.mp (List.pairwise_append.mp (List.pairwise_append.mp ordered).2.1).2.1).1 x follows
    obtain ⟨k,inK⟩ := occurs z (by simp)
    obtain ⟨k',inK'⟩ := occurs x (by simp [follows])
    rw [beyondUntilStays inK inK' precedes beyond] at within
    cases within

omit s clock in
/- Where COUNT ends the rule nothing was skipped, and what it lets through was passed. -/
theorem countPassed {first : Nat} {pre rest : List ExpandedOccurrence} (start : firstPeriod input = some (some first))
    (beyond : beyondCount input.rule (pre.length + 1) = true)
    (there : x ∈ upToCount input.rule ((List.range' 0 first).flatMap (occurrencesIn input) ++ (pre ++ rest))) :
    x ∈ pre := by
  unfold beyondCount at beyond
  split at beyond
  · rename_i n count
    obtain rfl := firstCounted start (by rw [count]; rfl)
    have few : n ≤ pre.length := Nat.le_of_lt_succ (of_decide_eq_true beyond)
    rw [List.range'_zero,List.flatMap_nil,List.nil_append,upToCount,count] at there
    simp only [List.take_append_of_le_length few] at there
    exact List.take_subset _ _ there
  · cases beyond
  · cases beyond

theorem exhaustedNone {e : Expansion} (ok : expand input = some (.ok e)) (exhausted : e.exhausted = true)
    (since : input.window.start ≤ x.instant) (produced : Produces input.rule input.dtstart input.zone x) :
    x.instant < input.window.stop := by
  simp only [expand,periods,bind,Option.bind_eq_some_iff] at ok
  obtain ⟨pass,⟨windowEnd,-,from_,start,walked⟩,result⟩ := ok
  cases pass with
  | next progress =>
    cases result
    cases exhausted
  | returned result' =>
    cases result
    cases from_ with
    | none => cases walked
    | some first =>
      obtain ⟨length,pre,z,post,visited,passed,beyond⟩ := walkBeyond walked exhausted
      rw [Nat.zero_add] at beyond
      obtain ⟨within,enough,place⟩ := producesSource produced
      obtain ⟨extra,more⟩ := Nat.exists_eq_add_of_le (le_max_left (first + length) enough)
      have there := place _ (le_max_right (first + length) enough)
      have all := wholeSeries visited extra
      have ordered := seriesOrdered s clock 0 (first + length + extra)
      have occurs := fun w => @memSeries _ s clock 0 (first + length + extra) w
      rw [more,all] at there
      rw [← List.range_eq_range',all] at ordered occurs
      rcases beyond with beyond | beyond
      · rcases untilPassed ordered (fun w mem => (occurs w mem).imp fun _ is => is.2.2) beyond
          (upToCountSubset _ _ there) within with skipped | mem
        · exact absurd (skippedSeries s clock start skipped).2 (not_lt_of_ge since)
        · exact (passed.1 x mem).2
      · exact (passed.1 x (countPassed start beyond there)).2

/-- A rule that is exhausted in a window has no occurrence at or after the end of the window, other than before its
start: the skip ahead is not past anything else. -/
theorem exhaustedEnds {e : Expansion} (ok : expand input = some (.ok e)) (exhausted : e.exhausted = true) :
    ¬ ∃ x, Produces input.rule input.dtstart input.zone x ∧ input.window.start ≤ x.instant ∧
      input.window.stop ≤ x.instant := by
  rintro ⟨x,produced,since,beyond⟩
  exact absurd (exhaustedNone s clock ok exhausted since produced) (not_lt_of_ge beyond)

end

def newYearsEves : RecurrenceRule where
  freq := .yearly
  interval := .finite 1
  count := none
  «until» := some (.date ⟨2025,12,31⟩)
  byDay := []
  byMonthDay := []
  byMonth := []
  wkst := .mo
  parsed := by constructor <;> simp [JsNumber.atLeastOne]

def lateOn (window : Window) : ExpandInput := ⟨newYearsEves,⟨⟨2025,12,31⟩,23,0,0⟩,.utc,window,maxOccurrences⟩

theorem noMoreEves : ¬ ∃ x, Produces newYearsEves ⟨⟨2025,12,31⟩,23,0,0⟩ .utc x ∧ 1767000000000 ≤ x.instant ∧
    1800000000000 ≤ x.instant := by
  have expanded : expand (lateOn ⟨1767000000000,1800000000000⟩) =
      some (.ok ⟨[⟨⟨⟨2025,12,31⟩,23,0,0⟩,1767222000000⟩],true⟩) := by decide +kernel
  exact @exhaustedEnds (lateOn _) ⟨by decide,by decide,by decide⟩ (by decide) _ expanded rfl

/- A window that ends, an hour before the only occurrence, ahead of its start a year later. -/
theorem exhaustedEarly : ¬ ∀ (input : ExpandInput) (e : Expansion), StartDay input.dtstart.toDate →
    LocalDateTime.Clock input.dtstart → expand input = some (.ok e) → e.exhausted = true →
      ¬ ∃ x, Produces input.rule input.dtstart input.zone x ∧ input.window.stop ≤ x.instant := by
  intro all
  have expanded : expand (lateOn ⟨1799107200000,1767218400000⟩) = some (.ok ⟨[],true⟩) := by decide +kernel
  refine all _ _ ⟨by decide,by decide,by decide⟩ (by decide) expanded rfl ⟨⟨⟨⟨2025,12,31⟩,23,0,0⟩,1767222000000⟩,?_,by decide⟩
  exact ⟨⟨1767000000000,1800000000000⟩,1,by decide +kernel⟩

theorem periodsBetweenReal {rule : RecurrenceRule} {start date : LocalDate} (s : StartDay start) (real : date.Real)
    (low : -719162 ≤ date.number) (high : date.number ≤ latest) : ∃ n, periodsBetween rule start date = some n ∧
      ∀ interval : Nat, rule.interval = .finite interval → periodIndex rule start date < (n + 1) * interval := by
  have startLow := s.low
  have startHigh := s.last
  have early : earliest ≤ date.number := by unfold earliest; omega
  have next : ∀ (a : Int) (i : Nat), rule.interval = .finite i → a < (a / i + 1) * i := fun a i finite =>
    Int.lt_ediv_add_one_mul_self a (by have := intervalPositive finite; omega)
  cases freq : rule.freq <;> simp only [periodsBetween,periodIndex,freq]
  · rw [compareReal real s.real early (by unfold earliest; omega) high (by omega)]
    refine ⟨_,rfl,fun i finite => ?_⟩
    simp only [wholePeriods,finite,Int.one_mul]
    exact next _ i finite
  · have bounds := weekStartBounds rule.wkst start.number
    have bounds' := weekStartBounds rule.wkst date.number
    simp only [startOfWeekReal real low high,startOfWeekReal s.real startLow (by omega),bind,Option.bind_some]
    rw [compareReal (dateOfReal _) (dateOfReal _) (by rw [numberOfDate]; unfold earliest; omega)
      (by rw [numberOfDate]; unfold earliest; omega) (by rw [numberOfDate]; omega) (by rw [numberOfDate]; omega)]
    refine ⟨_,rfl,fun i finite => ?_⟩
    simp only [wholePeriods,finite,numberOfDate]
    rw [← Int.ediv_ediv_of_nonneg (by decide)]
    exact next _ i finite
  · refine ⟨_,rfl,fun i finite => ?_⟩
    simp only [wholePeriods,finite,Int.one_mul]
    exact next _ i finite
  · refine ⟨_,rfl,fun i finite => ?_⟩
    simp only [wholePeriods,finite,Int.one_mul]
    exact next _ i finite

theorem toEpochDaySome {d : LocalDate} (real : d.Real) (low : -800000 ≤ d.number) (high : d.number ≤ latest) :
    ∃ n, toEpochDay d = some n ∧ min d.number (-720000) ≤ n ∧ n ≤ latest := by
  by_cases late : earliest ≤ d.number
  · exact ⟨_,toEpochDayReal real late high,min_le_left _ _,high⟩
  · unfold earliest at late
    obtain ⟨ms,utc,least,most⟩ := @localAsUtcMsModerate (atTime d 0 0 0) ⟨real,by simp [LocalDateTime.Clock,atTime],
      le_trans (by decide) low,by simp only [atTime]; omega⟩
    refine ⟨ms / msPerDay,by rw [toEpochDay,utc,Option.map_some],?_⟩
    have : min d.number (-720000) * msPerDay ≤ ms := least
    have : ms ≤ (max d.number 12000 + 1) * msPerDay := most
    unfold latest msPerDay at *
    omega

theorem periodsBetweenSome {rule : RecurrenceRule} {start date : LocalDate} (s : StartDay start) (real : date.Real)
    (low : -799990 ≤ date.number) (high : date.number ≤ latest) : ∃ n, periodsBetween rule start date = some n := by
  have startLow := s.low
  have startHigh := s.last
  have startDay := toEpochDayReal s.real (by unfold earliest; omega) (by omega)
  obtain ⟨n,day,least,most⟩ := toEpochDaySome real (by omega) high
  cases freq : rule.freq <;> simp only [periodsBetween,freq]
  · simp only [compareLocalDates,day,startDay,bind,Option.bind_some]
    exact ⟨_,rfl⟩
  · have bounds := weekStartBounds rule.wkst start.number
    obtain ⟨week,isWeek,first⟩ : ∃ week, startOfWeek date rule.wkst = some week ∧
        week = dateOf (n + -((((n + 4) % 7 + 6) % 7 - weekdayIndex rule.wkst + 7) % 7)) := by
      refine ⟨_,?_,rfl⟩
      simp only [startOfWeek,isoWeekdayIndex,addDays,day,bind,Option.map_some,Option.bind_some]
      exact fromEpochDayReal (by unfold latest; omega) (by omega)
    have number : week.number = n + -((((n + 4) % 7 + 6) % 7 - weekdayIndex rule.wkst + 7) % 7) := by
      rw [first,numberOfDate]
    obtain ⟨m,weekDay,-⟩ := toEpochDaySome (first ▸ dateOfReal _ : week.Real) (by omega) (by omega)
    obtain ⟨m',firstDay,-⟩ := toEpochDaySome (dateOfReal (weekStart rule.wkst start.number))
      (by rw [numberOfDate]; omega) (by rw [numberOfDate]; omega)
    simp only [isWeek,startOfWeekReal s.real startLow (by omega),compareLocalDates,weekDay,firstDay,bind,Option.bind_some]
    exact ⟨_,rfl⟩
  · exact ⟨_,rfl⟩
  · exact ⟨_,rfl⟩

theorem periodIndexBounded {rule : RecurrenceRule} {start d e : LocalDate} (realD : d.Real) (realE : e.Real)
    (le : d.number ≤ e.number) : periodIndex rule start e - periodIndex rule start d ≤ e.number - d.number + 400 := by
  have januaryD := realD.1
  have decemberE := realE.2.1
  have year := yearMono realD realE le
  have apart := yearStartMono year
  obtain ⟨-,till⟩ := realOffset realD
  obtain ⟨since,-⟩ := realOffset realE
  have length := yearStartSucc d.year
  have whole : yearLength d.year ≤ 366 := by
    unfold yearLength
    split <;> omega
  cases freq : rule.freq <;> simp only [periodIndex,freq]
  · omega
  · have bounds := weekStartBounds rule.wkst d.number
    have bounds' := weekStartBounds rule.wkst e.number
    omega
  · omega
  · omega

theorem daysApart {start stop before after : Int} (forward : start < stop) (short : stop - start ≤ 4000 * msPerDay)
    (clipped : stop ≤ latest * msPerDay) (first : -54000 ≤ before ∧ before ≤ 54000)
    (last : -54000 ≤ after ∧ after ≤ 54000) :
    (stop / 1000 + after) / 86400 ≤ (start / 1000 + before) / 86400 + 4003 ∧
      (start / 1000 + before) / 86400 ≤ latest := by
  unfold latest msPerDay at *
  omega

section
variable {input : ExpandInput} (s : StartDay input.dtstart.toDate) {x : ExpandedOccurrence}

theorem insideDates {k : Nat} (inK : OccursIn input k x) (inside : within input.window x = true)
    (short : input.window.stop - input.window.start ≤ 4000 * msPerDay) {windowStart windowEnd : LocalDateTime}
    (readStart : instantToLocal input.zone input.window.start = some windowStart)
    (readStop : instantToLocal input.zone input.window.stop = some windowEnd) :
    windowStart.toDate.number ≤ x.reading.toDate.number + 2 ∧ x.reading.toDate.number ≤ windowStart.toDate.number + 4005 ∧
      windowStart.toDate.number ≤ latest := by
  simp only [within,Bool.and_eq_true,decide_eq_true_eq] at inside
  obtain ⟨since,before⟩ := inside
  have notEarly : ¬ x.reading.toDate.number + 3 ≤ windowStart.toDate.number := fun early =>
    absurd (lt_of_le_of_lt since (resolvedBefore inK.inPeriod.real inK.clocked inK.inPeriod.low inK.resolved readStart early))
      (lt_irrefl _)
  have notLate : ¬ windowEnd.toDate.number + 2 ≤ x.reading.toDate.number := fun late =>
    absurd (lt_of_lt_of_le before (resolvedAfter inK.inPeriod.real inK.clocked inK.inPeriod.low inK.resolved readStop late))
      (lt_irrefl _)
  have startDay := congrArg (fun l : LocalDateTime => l.toDate.number) (instantToLocalSource readStart)
  have stopDay := congrArg (fun l : LocalDateTime => l.toDate.number) (instantToLocalSource readStop)
  simp only [readingOfDay] at startDay stopDay
  have boundStart := input.zone.steady.bounded (input.window.start / 1000)
  have boundStop := input.zone.steady.bounded (input.window.stop / 1000)
  have clipped : input.window.stop ≤ latest * msPerDay := by
    obtain ⟨ms,clip,-⟩ := Option.map_eq_some_iff.mp readStop
    unfold timeClip at clip
    split at clip
    · rename_i range
      exact range.2
    · cases clip
  obtain ⟨apart,high⟩ := daysApart (lt_of_le_of_lt since before) short clipped boundStart boundStop
  omega

include s
/- From the anchor on, too, there are not so many periods by the first days of the common era. -/
theorem reachesEarly {k interval : Nat} {m : Int} {windowStart : LocalDate} (inK : OccursIn input k x)
    (finite : input.rule.interval = .finite interval)
    (period : periodIndex input.rule input.dtstart.toDate x.reading.toDate = (k * interval : Nat))
    (real : windowStart.Real) (high : windowStart.number ≤ latest) (day : toEpochDay windowStart = some m)
    (early : m < -719160) (below : x.reading.toDate.number ≤ windowStart.number + 4005) : k < 200000 := by
  by_contra many
  have low := s.low
  have positive := intervalPositive finite
  have whole : (k : Int) ≤ k * interval := le_mul_of_one_le_right (by omega) (by omega)
  have bounded := @periodIndexBounded input.rule input.dtstart.toDate _ _ s.real inK.inPeriod.real inK.since
  have own : periodIndex input.rule input.dtstart.toDate input.dtstart.toDate = 0 := by
    cases freq : input.rule.freq <;> simp [periodIndex,freq]
  have near : windowStart.number ≤ -719100 := by
    by_contra late
    have exact_ := toEpochDayReal real (by unfold earliest; omega) high
    rw [exact_] at day
    have := Option.some.inj day
    omega
  push_cast at period
  omega

theorem reachesLate {k interval : Nat} {n : Int} {from_ : LocalDate} (inK : OccursIn input k x)
    (finite : input.rule.interval = .finite interval)
    (period : periodIndex input.rule input.dtstart.toDate x.reading.toDate = (k * interval : Nat)) (real : from_.Real)
    (low : -719162 ≤ from_.number) (high : from_.number ≤ latest)
    (between : periodsBetween input.rule input.dtstart.toDate from_ = some n)
    (below : x.reading.toDate.number ≤ from_.number + 4007) : (k : Int) < n - 1 + 200000 := by
  by_contra many
  have positive := intervalPositive finite
  obtain ⟨n',between',exceeds⟩ := @periodsBetweenReal input.rule _ _ s real low high
  obtain rfl := Option.some.inj (between'.symm.trans between)
  have less := exceeds interval finite
  have far : (n' + 1) * interval + 199998 ≤ k * interval := by
    calc (n' + 1) * interval + 199998 ≤ (n' + 1) * interval + 199998 * interval := by omega
      _ = (n' + 1 + 199998) * interval := by ring
      _ ≤ k * interval := Int.mul_le_mul_of_nonneg_right (by omega) (by omega)
  push_cast at period
  by_cases order : from_.number ≤ x.reading.toDate.number
  · have bounded := @periodIndexBounded input.rule input.dtstart.toDate _ _ real inK.inPeriod.real order
    omega
  · have mono := @periodIndexMono input.rule input.dtstart.toDate _ _ inK.inPeriod.real real (by omega)
    omega

theorem reachesEnd {k : Nat} (inK : OccursIn input k x) (inside : within input.window x = true)
    (short : input.window.stop - input.window.start ≤ 4000 * msPerDay) (count : input.rule.count.isSome = false)
    {windowEnd : LocalDateTime} (readStop : instantToLocal input.zone input.window.stop = some windowEnd)
    {from_ : Option Nat} (start : firstPeriod input = some from_) : ∃ first, from_ = some first ∧ k < first + maxPeriods := by
  simp only [firstPeriod,count,Bool.false_eq_true,if_false,bind,Option.bind_eq_some_iff,Option.some.injEq] at start
  obtain ⟨windowStart,readStart,rfl⟩ := start
  obtain ⟨above,below,high⟩ := insideDates inK inside short readStart readStop
  have real := (instantToLocalReal readStart).1
  have since := inK.since
  have low := s.low
  obtain ⟨m,day,least,most⟩ := toEpochDaySome real (by omega) high
  have added : addDays windowStart.toDate (-2) = some (dateOf (m + -2)) := by
    simp only [addDays,day,bind,Option.bind_some]
    exact fromEpochDayReal (by unfold latest; omega) (by omega)
  obtain ⟨n,between⟩ := @periodsBetweenSome input.rule _ _ s (dateOfReal (m + -2)) (by rw [numberOfDate]; omega)
    (by rw [numberOfDate]; omega)
  rw [added,Option.bind_some,between,Option.bind_some]
  refine ⟨_,rfl,?_⟩
  obtain ⟨interval,finite,period⟩ := inK.inPeriod.period
  unfold maxPeriods
  by_cases early : m < -719160
  · have := reachesEarly s inK finite period real high day early below
    omega
  · obtain rfl := toEpochDayAny real day (by omega)
    have := reachesLate s inK finite period (dateOfReal _) (by rw [numberOfDate]; omega)
      (by rw [numberOfDate]; omega) between (by rw [numberOfDate]; omega)
    omega

theorem expandComplete (clock : LocalDateTime.Clock input.dtstart) {e : Expansion}
    (ok : expand input = some (.ok e)) (short : input.window.stop - input.window.start ≤ 4000 * msPerDay)
    (produced : Produces input.rule input.dtstart input.zone x) (inside : within input.window x = true)
    (reach : input.rule.count.isSome = true → ∃ k < maxPeriods, x ∈ occurrencesIn input k) : x ∈ e.occurrences := by
  have ended := ok
  simp only [expand,bind,Option.bind_eq_some_iff] at ended
  obtain ⟨pass,found,result⟩ := ended
  cases pass with
  | returned result' =>
    cases result
    obtain ⟨first,length,passed,rest,from_,stopped⟩ := periodsStopped found
    obtain ⟨enough,there⟩ := producesPlain produced inside
    rw [← plainStopped s clock from_ stopped (le_max_left (first + length) enough)]
    exact there _ (le_max_right _ _)
  | next progress =>
    cases result
    simp only [periods,bind,Option.bind_eq_some_iff] at found
    obtain ⟨windowEnd,readStop,from_,start,found⟩ := found
    obtain ⟨first,k,rfl,least,most,there⟩ : ∃ first k, from_ = some first ∧ first ≤ k ∧ k < first + maxPeriods ∧
        x ∈ occurrencesIn input k := by
      cases count : input.rule.count.isSome with
      | true =>
        obtain ⟨k,few,there⟩ := reach count
        rw [firstPeriod,if_pos count] at start
        exact ⟨0,k,(Option.some.inj start).symm,Nat.zero_le k,by omega,there⟩
      | false =>
        obtain ⟨k,there⟩ := producesOccurs produced
        have inK := memOccurrencesIn s clock there
        obtain ⟨first,rfl,less⟩ := reachesEnd s inK inside short count readStop start
        refine ⟨first,k,rfl,?_,less,there⟩
        by_contra skipped
        simp only [within,Bool.and_eq_true,decide_eq_true_eq] at inside
        exact absurd (lt_of_le_of_lt inside.1 (skippedBefore s start (by omega) inK).2) (lt_irrefl _)
    have walked := walkExhausted found
    have mem : x ∈ (List.range' first maxPeriods).flatMap (occurrencesIn input) :=
      List.mem_flatMap.mpr ⟨k,List.mem_range'_1.mpr ⟨least,most⟩,there⟩
    generalize (List.range' first maxPeriods).flatMap (occurrencesIn input) = all at walked mem
    cases walked with
    | next passed => simpa [Progress.and,inside] using mem

end

end FamilyPlatform.Recurrence
