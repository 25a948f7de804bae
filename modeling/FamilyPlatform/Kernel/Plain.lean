import FamilyPlatform.Kernel.Periods

/-! Expansion finds what a plain walk finds that visits every period from the first. -/
namespace FamilyPlatform.Recurrence
open ZonedTime Civil

section
variable (input : ExpandInput)

def occurrenceAt (date : Option LocalDate) : Option ExpandedOccurrence := do
  let date ← date
  let reading := atTime date input.dtstart.hour input.dtstart.minute input.dtstart.second
  if (compareLocalDateTimes reading input.dtstart).any (· < 0) then none
  else do
    let instant ← localToInstant input.zone reading
    some ⟨reading,instant⟩

def occurrencesIn (k : Nat) : List ExpandedOccurrence :=
  (candidatesForPeriod input.rule input.dtstart.toDate k).filterMap (occurrenceAt input)

def upToCount (rule : RecurrenceRule) (occurrences : List ExpandedOccurrence) : List ExpandedOccurrence :=
  match rule.count with
  | some (.finite count) => occurrences.take count
  | some .infinity | none => occurrences

def within (window : Window) (x : ExpandedOccurrence) : Bool := window.start ≤ x.instant && x.instant < window.stop

def plain (periods : Nat) : List ExpandedOccurrence :=
  ((upToCount input.rule ((List.range periods).flatMap (occurrencesIn input))).takeWhile
    (fun x => !beyondUntil input.rule x.reading x.instant)).filter (within input.window)

end

def Precedes (x y : ExpandedOccurrence) : Prop := x.reading.toDate.number < y.reading.toDate.number ∧ x.instant < y.instant

variable {input : ExpandInput} (s : StartDay input.dtstart.toDate) (clock : LocalDateTime.Clock input.dtstart)

structure OccursIn (input : ExpandInput) (k : Nat) (x : ExpandedOccurrence) : Prop where
  inPeriod : InPeriod input.rule input.dtstart.toDate k x.reading.toDate
  since : input.dtstart.toDate.number ≤ x.reading.toDate.number
  clock : clockMs x.reading = clockMs input.dtstart
  clocked : LocalDateTime.Clock x.reading
  resolved : localToInstant input.zone x.reading = some x.instant

theorem occurrencesSome (k : Nat) : occurrencesIn input k =
    ((candidatesForPeriod input.rule input.dtstart.toDate k).filterMap id).filterMap
      (fun date => occurrenceAt input (some date)) := by
  rw [List.filterMap_filterMap,occurrencesIn]
  refine List.filterMap_congr (fun date _ => ?_)
  cases date <;> rfl

theorem laterInstant {x y : ExpandedOccurrence} {k k' : Nat} (inK : OccursIn input k x) (inK' : OccursIn input k' y)
    (less : x.reading.toDate.number < y.reading.toDate.number) : Precedes x y :=
  ⟨less,instantsIncrease inK.inPeriod.real inK'.inPeriod.real inK.clocked inK'.clocked inK.inPeriod.low less
    (inK.clock.trans inK'.clock.symm) inK.resolved inK'.resolved⟩

theorem laterPeriod {k k' : Nat} {x y : ExpandedOccurrence} (inK : OccursIn input k x) (inK' : OccursIn input k' y)
    (less : k < k') : Precedes x y := laterInstant inK inK' (periodOrder inK.inPeriod inK'.inPeriod less)

section
include s clock

theorem occurrenceSource {k : Nat} {d : LocalDate} {x : ExpandedOccurrence}
    (source : some d ∈ candidatesForPeriod input.rule input.dtstart.toDate k)
    (found : occurrenceAt input (some d) = some x) : x.reading.toDate = d ∧ OccursIn input k x := by
  simp only [occurrenceAt,bind,Option.bind_some] at found
  obtain ⟨reading,is⟩ : ∃ reading, atTime d input.dtstart.hour input.dtstart.minute input.dtstart.second = reading :=
    ⟨_,rfl⟩
  rw [is] at found
  split at found
  · cases found
  rename_i notBefore
  obtain ⟨instant,resolved,same⟩ := Option.bind_eq_some_iff.mp found
  obtain rfl := Option.some.inj same
  have inPeriod := memCandidatesPeriod s source
  subst is
  refine ⟨rfl,inPeriod,?_,rfl,clock,resolved⟩
  obtain ⟨ms,utc⟩ := localToInstantReads resolved
  have low := inPeriod.low
  have startLow := s.low
  have startHigh := s.last
  obtain ⟨startClock,-⟩ := clockBounds clock
  have start := localAsUtcMsReal s.real clock (by unfold earliest; omega) (by
    have := clockBounds clock
    unfold latest msPerDay at *
    omega)
  have read := (localAsUtcMsSource (l := atTime d input.dtstart.hour input.dtstart.minute input.dtstart.second)
    inPeriod.real clock (by unfold earliest; exact le_trans (by decide) low) utc).1
  simp only [compareLocalDateTimes,utc,start,bind,Option.bind_some,Option.any_some,decide_eq_true_eq] at notBefore
  rw [← secondMs] at read
  simp only [clockMs,atTime,msPerDay] at *
  omega

theorem memOccurrencesIn {k : Nat} {x : ExpandedOccurrence} (mem : x ∈ occurrencesIn input k) :
    OccursIn input k x := by
  rw [occurrencesSome] at mem
  obtain ⟨d,source,found⟩ := List.mem_filterMap.mp mem
  obtain ⟨_,there,rfl⟩ := List.mem_filterMap.mp source
  exact (occurrenceSource s clock there found).2

theorem occurrencesOrdered (k : Nat) : (occurrencesIn input k).Pairwise Precedes := by
  rw [occurrencesSome,List.pairwise_filterMap]
  refine (candidatesOrdered s k).imp_of_mem (fun {a b} memA memB less x foundA y foundB => ?_)
  obtain ⟨_,thereA,rfl⟩ := List.mem_filterMap.mp memA
  obtain ⟨_,thereB,rfl⟩ := List.mem_filterMap.mp memB
  obtain ⟨dateA,inA⟩ := occurrenceSource s clock thereA foundA
  obtain ⟨dateB,inB⟩ := occurrenceSource s clock thereB foundB
  exact laterInstant inA inB (by rw [dateA,dateB]; exact less)

theorem seriesOrdered (first length : Nat) :
    ((List.range' first length).flatMap (occurrencesIn input)).Pairwise Precedes := by
  rw [List.pairwise_flatMap]
  refine ⟨fun k _ => occurrencesOrdered s clock k,?_⟩
  refine (List.pairwise_lt_range').imp (fun less x memX y memY => ?_)
  exact laterPeriod (memOccurrencesIn s clock memX) (memOccurrencesIn s clock memY) less

end

theorem beyondUntilStays {k k' : Nat} {x y : ExpandedOccurrence} (inK : OccursIn input k x)
    (inK' : OccursIn input k' y) (precedes : Precedes x y)
    (beyond : beyondUntil input.rule x.reading x.instant = true) :
    beyondUntil input.rule y.reading y.instant = true := by
  obtain ⟨number,instant⟩ := precedes
  have lowX := inK.inPeriod.low
  have lowY := inK'.inPeriod.low
  unfold beyondUntil at *
  split at beyond
  · cases beyond
  · rename_i date _
    simp only [compareLocalDates,bind,toEpochDayReal inK.inPeriod.real (by unfold earliest; omega) inK.inPeriod.high,
      toEpochDayReal inK'.inPeriod.real (by unfold earliest; omega) inK'.inPeriod.high,Option.bind_some] at *
    cases is : toEpochDay date with
    | none => simp [is] at beyond
    | some last =>
      simp only [is,Option.bind_some,Option.any_some,decide_eq_true_eq] at *
      omega
  · simp only [decide_eq_true_eq] at *
    exact lt_trans beyond instant
  · rename_i last _
    obtain ⟨ms,utc⟩ := localToInstantReads inK.resolved
    obtain ⟨ms',utc'⟩ := localToInstantReads inK'.resolved
    have read := (localAsUtcMsSource inK.inPeriod.real inK.clocked (by unfold earliest; omega) utc).1
    have read' := (localAsUtcMsSource inK'.inPeriod.real inK'.clocked (by unfold earliest; omega) utc').1
    have sameClock := inK.clock.trans inK'.clock.symm
    rw [← secondMs] at read read'
    simp only [compareLocalDateTimes,bind,utc,utc',Option.bind_some] at *
    cases is : localAsUtcMs last with
    | none => simp [is] at beyond
    | some at_ =>
      simp only [is,Option.bind_some,Option.any_some,decide_eq_true_eq] at *
      unfold msPerDay at *
      omega

theorem skippedBefore {first k : Nat} {x : ExpandedOccurrence} (s : StartDay input.dtstart.toDate)
    (found : firstPeriod input = some (some first)) (less : k < first) (inK : OccursIn input k x) :
    input.rule.count = none ∧ x.instant < input.window.start := by
  unfold firstPeriod at found
  split at found
  · cases found
    omega
  rename_i none
  simp only [bind,Option.bind_eq_some_iff,Option.some.injEq] at found
  obtain ⟨windowStart,read,date,added,between,periods,is⟩ := found
  refine ⟨by simpa using none,?_⟩
  have real := (instantToLocalReal read).1
  simp only [addDays,bind,Option.bind_eq_some_iff] at added
  obtain ⟨n,epochDay,added⟩ := added
  obtain ⟨rfl,-⟩ := fromEpochDaySource added
  obtain ⟨low,interval,finite,le⟩ := periodsBetweenSource s (dateOfReal _) periods (by omega)
  rw [numberOfDate] at low
  obtain rfl := toEpochDayAny real epochDay (by omega)
  refine resolvedBefore inK.inPeriod.real inK.clocked inK.inPeriod.low inK.resolved read ?_
  obtain ⟨interval',finite',period⟩ := inK.inPeriod.period
  cases JsNumber.finite.inj (finite.symm.trans finite')
  have positive := intervalPositive finite
  by_contra notBefore
  have mono := @periodIndexMono input.rule input.dtstart.toDate _ _ (dateOfReal (windowStart.toDate.number + -2))
    inK.inPeriod.real (by rw [numberOfDate]; omega)
  have earlier : (k : Int) * interval < between * interval :=
    Int.mul_lt_mul_of_pos_right (by omega) (by omega)
  omega

theorem stoppedAfter {k k' : Nat} {windowEnd : LocalDateTime} {x : ExpandedOccurrence}
    (s : StartDay input.dtstart.toDate) (read : instantToLocal input.zone input.window.stop = some windowEnd)
    (past : pastWindow input windowEnd.toDate k = true) (le : k ≤ k') (inK' : OccursIn input k' x) :
    input.window.stop ≤ x.instant := by
  have number := inK'.since
  have low := s.low
  refine resolvedAfter inK'.inPeriod.real inK'.clocked inK'.inPeriod.low inK'.resolved read ?_
  by_cases early : windowEnd.toDate.number < earliest
  · unfold earliest at early
    omega
  unfold pastWindow at past
  simp only [Option.any_eq_true,bind,Option.bind_eq_some_iff,decide_eq_true_eq] at past
  obtain ⟨difference,⟨first,start,last,added,compared⟩,positive⟩ := past
  obtain ⟨real,lowFirst,least⟩ := periodStartSource s start
  obtain ⟨rfl,-⟩ := addDaysSource (instantToLocalReal read).1 (by omega) added
  have difference' := compareSource real (dateOfReal _) lowFirst (by rw [numberOfDate]; omega) compared
  rw [numberOfDate] at difference'
  have := least k' le _ inK'.inPeriod
  omega

def Passed (input : ExpandInput) (produced : Nat) (xs : List ExpandedOccurrence) : Prop :=
  (∀ x ∈ xs, beyondUntil input.rule x.reading x.instant = false ∧ x.instant < input.window.stop) ∧
    (xs = [] ∨ beyondCount input.rule (produced + xs.length) = false)

def Ends (input : ExpandInput) (produced : Nat) (x : ExpandedOccurrence) : Prop :=
  beyondUntil input.rule x.reading x.instant = true ∨ beyondCount input.rule (produced + 1) = true ∨
    input.window.stop ≤ x.instant

def Progress.and (input : ExpandInput) (progress : Progress) (xs : List ExpandedOccurrence) : Progress :=
  ⟨progress.occurrences ++ xs.filter (within input.window),progress.produced + xs.length⟩

inductive Walked (input : ExpandInput) (progress : Progress) : List ExpandedOccurrence → Pass → Prop where
  | next {xs} (passed : Passed input progress.produced xs) : Walked input progress xs (.next (progress.and input xs))
  | ended {pre x post exhausted} (passed : Passed input progress.produced pre)
      (ends : Ends input (progress.produced + pre.length) x) :
      Walked input progress (pre ++ x :: post) (.returned (.ok ⟨(progress.and input pre).occurrences,exhausted⟩))
  | refused {xs e} : Walked input progress xs (.returned (.error e))

omit s clock in
theorem Passed.append {produced : Nat} {xs ys : List ExpandedOccurrence} (first : Passed input produced xs)
    (second : Passed input (produced + xs.length) ys) : Passed input produced (xs ++ ys) := by
  refine ⟨fun x mem => ?_,?_⟩
  · rcases List.mem_append.mp mem with left | right
    · exact first.1 x left
    · exact second.1 x right
  · rcases second.2 with rfl | count
    · rw [List.append_nil]
      exact first.2
    · rw [List.length_append,← Nat.add_assoc]
      exact .inr count

theorem andAppend (progress : Progress) (xs ys : List ExpandedOccurrence) :
    (progress.and input xs).and input ys = progress.and input (xs ++ ys) := by
  simp [Progress.and,Nat.add_assoc]

theorem Walked.append {progress later : Progress} {xs ys : List ExpandedOccurrence} {pass : Pass}
    (first : Walked input progress xs (.next later)) (second : Walked input later ys pass) :
    Walked input progress (xs ++ ys) pass := by
  cases first with
  | next passed =>
    cases second with
    | next passed' =>
      rw [andAppend]
      exact .next (passed.append passed')
    | ended passed' ends =>
      rw [andAppend,← List.append_assoc]
      exact .ended (passed.append passed') (by
        rw [List.length_append,← Nat.add_assoc]
        exact ends)
    | refused => exact .refused

theorem Walked.stopped {progress : Progress} {xs : List ExpandedOccurrence} {result : Result Expansion}
    (first : Walked input progress xs (.returned result)) (ys : List ExpandedOccurrence) :
    Walked input progress (xs ++ ys) (.returned result) := by
  cases first with
  | ended passed ends =>
    rw [List.append_assoc,List.cons_append]
    exact .ended passed ends
  | refused => exact .refused

theorem visitWalked {progress : Progress} {date : Option LocalDate} {pass : Pass}
    (found : visit input progress date = some pass) :
    Walked input progress (occurrenceAt input date).toList pass := by
  simp only [visit,occurrenceAt,bind,Option.bind_eq_some_iff] at *
  obtain ⟨d,rfl,found⟩ := found
  simp only [Option.bind_some]
  generalize atTime d input.dtstart.hour input.dtstart.minute input.dtstart.second = reading at *
  split at found
  · rename_i before
    cases found
    have := @Walked.next input progress [] ⟨by simp,.inl rfl⟩
    simpa [Progress.and,before] using this
  rename_i since
  obtain ⟨instant,resolved,found⟩ := Option.bind_eq_some_iff.mp found
  simp only [if_neg since,resolved,Option.bind_some,Option.toList_some]
  have ended : Ends input progress.produced ⟨reading,instant⟩ → ∀ exhausted,
      Walked input progress [⟨reading,instant⟩] (.returned (.ok ⟨progress.occurrences,exhausted⟩)) := by
    intro ends exhausted
    have := @Walked.ended input progress [] ⟨reading,instant⟩ [] exhausted ⟨by simp,.inl rfl⟩ ends
    simpa [Progress.and] using this
  split at found
  · rename_i beyond
    cases found
    exact ended (.inl beyond) true
  split at found
  · rename_i beyond
    cases found
    exact ended (.inr (.inl beyond)) true
  split at found
  · rename_i stopped
    cases found
    exact ended (.inr (.inr stopped)) false
  rename_i notUntil notCount notStopped
  have next := @Walked.next input progress [⟨reading,instant⟩]
    ⟨by simpa using ⟨by simpa using notUntil,Int.not_le.mp notStopped⟩,.inr (by simpa using notCount)⟩
  have inside : within input.window ⟨reading,instant⟩ = true ↔ ¬ instant < input.window.start := by
    simp only [within,Bool.and_eq_true,decide_eq_true_eq,Int.not_lt]
    exact and_iff_left (Int.not_le.mp notStopped)
  split at found
  · rename_i early
    cases found
    have outside : ¬ within input.window ⟨reading,instant⟩ = true := fun is => inside.mp is early
    simpa [Progress.and,outside] using next
  · rename_i inWindow
    split at found
    · cases found
      exact .refused
    · cases found
      simpa [Progress.and,inside.mpr inWindow] using next

theorem visitAllWalked {progress : Progress} {dates : List (Option LocalDate)} {pass : Pass}
    (found : visitAll input progress dates = some pass) :
    Walked input progress (dates.filterMap (occurrenceAt input)) pass := by
  induction dates generalizing progress with
  | nil =>
    cases found
    have := @Walked.next input progress [] ⟨by simp,.inl rfl⟩
    simpa [Progress.and] using this
  | cons date rest ih =>
    simp only [visitAll,bind,Option.bind_eq_some_iff] at found
    obtain ⟨first,visited,found⟩ := found
    have walked := visitWalked visited
    have split : (date :: rest).filterMap (occurrenceAt input) =
        (occurrenceAt input date).toList ++ rest.filterMap (occurrenceAt input) := by
      cases is : occurrenceAt input date <;> simp [is]
    rw [split]
    cases first with
    | next later => exact walked.append (ih found)
    | returned result =>
      cases found
      exact walked.stopped _

theorem walkWalked {windowEnd : LocalDate} {fuel k : Nat} {progress : Progress} {e : Expansion}
    (found : walk input windowEnd fuel k progress = some (.returned (.ok e))) :
    ∃ length, Walked input progress ((List.range' k length).flatMap (occurrencesIn input)) (.returned (.ok e)) ∨
      ∃ produced, pastWindow input windowEnd (k + length) = true ∧
        Walked input progress ((List.range' k length).flatMap (occurrencesIn input)) (.next ⟨e.occurrences,produced⟩) := by
  induction fuel generalizing k progress with
  | zero => cases found
  | succ fuel ih =>
    unfold walk at found
    split at found
    · rename_i past
      cases found
      have := @Walked.next input progress [] ⟨by simp,.inl rfl⟩
      exact ⟨0,.inr ⟨progress.produced,past,by simpa [Progress.and] using this⟩⟩
    · simp only [bind,Option.bind_eq_some_iff] at found
      obtain ⟨first,visited,found⟩ := found
      have walked := visitAllWalked visited
      cases first with
      | next later =>
        obtain ⟨length,rest⟩ := ih found
        refine ⟨length + 1,?_⟩
        rw [List.range'_succ,List.flatMap_cons]
        rcases rest with rest | ⟨produced,past,rest⟩
        · exact .inl (walked.append rest)
        · exact .inr ⟨produced,by rw [← past]; congr 1; omega,walked.append rest⟩
      | returned result =>
        cases found
        exact ⟨1,.inl (by simpa [occurrencesIn] using walked)⟩

theorem takeWhileStays {α : Type} {p : α → Bool} {xs : List α}
    (stays : xs.Pairwise (fun a b => p a = false → p b = false)) : xs.takeWhile p = xs.filter p := by
  induction xs with
  | nil => rfl
  | cons x rest ih =>
    obtain ⟨first,others⟩ := List.pairwise_cons.mp stays
    cases is : p x with
    | true => rw [List.takeWhile_cons_of_pos is,List.filter_cons_of_pos is,ih others]
    | false =>
      rw [List.takeWhile_cons_of_neg (by simp [is]),List.filter_cons_of_neg (by simp [is])]
      exact (List.filter_eq_nil_iff.mpr (fun y mem => by simp [first y mem is])).symm

theorem upToCountPassed {passed rest : List ExpandedOccurrence}
    (counted : Passed input 0 passed) : ∃ part, part <+: rest ∧
      upToCount input.rule (passed ++ rest) = passed ++ part ∧
      (beyondCount input.rule (passed.length + 1) = true → part = []) := by
  unfold upToCount
  cases is : input.rule.count with
  | none => exact ⟨rest,List.prefix_rfl,rfl,by simp [beyondCount,is]⟩
  | some count =>
    cases count with
    | infinity => exact ⟨rest,List.prefix_rfl,rfl,by simp [beyondCount,is]⟩
    | finite count =>
      have le : passed.length ≤ count := by
        rcases counted.2 with rfl | before
        · exact Nat.zero_le _
        · simpa [beyondCount,is] using before
      refine ⟨rest.take (count - passed.length),List.take_prefix _ _,?_,fun beyond => ?_⟩
      · change (passed ++ rest).take count = _
        rw [List.take_append,List.take_of_length_le le]
      · have : count ≤ passed.length := by
          simp only [beyondCount,is,decide_eq_true_eq] at beyond
          omega
        rw [Nat.sub_eq_zero_of_le this,List.take_zero]

section
include s clock

theorem memSeries {first length : Nat} {x : ExpandedOccurrence}
    (mem : x ∈ (List.range' first length).flatMap (occurrencesIn input)) :
    ∃ k, first ≤ k ∧ k < first + length ∧ OccursIn input k x := by
  obtain ⟨k,source,there⟩ := List.mem_flatMap.mp mem
  obtain ⟨low,high⟩ := List.mem_range'_1.mp source
  exact ⟨k,low,high,memOccurrencesIn s clock there⟩

theorem untilStays {first length : Nat} {xs : List ExpandedOccurrence}
    (part : xs.Sublist ((List.range' first length).flatMap (occurrencesIn input))) :
    xs.Pairwise (fun x y => (!beyondUntil input.rule x.reading x.instant) = false →
      (!beyondUntil input.rule y.reading y.instant) = false) := by
  refine ((seriesOrdered s clock first length).sublist part).imp_of_mem (fun {x y} memX memY precedes beyond => ?_)
  obtain ⟨k,-,-,inK⟩ := memSeries s clock (part.subset memX)
  obtain ⟨k',-,-,inK'⟩ := memSeries s clock (part.subset memY)
  simp only [Bool.not_eq_eq_eq_not,Bool.not_false] at *
  exact beyondUntilStays inK inK' precedes beyond

/- What was passed, what was left of the periods that were visited, and why nothing of
that or of any later period belongs to the result. -/
structure Stopped (input : ExpandInput) (first : Nat) (e : Expansion) (length : Nat)
    (passed rest : List ExpandedOccurrence) : Prop where
  visited : (List.range' first length).flatMap (occurrencesIn input) = passed ++ rest
  kept : Passed input 0 passed
  occurrences : e.occurrences = passed.filter (within input.window)
  reason : (rest = [] ∧ ∃ windowEnd, instantToLocal input.zone input.window.stop = some windowEnd ∧
      pastWindow input windowEnd.toDate (first + length) = true) ∨
    ∃ x post, rest = x :: post ∧ Ends input passed.length x

omit s clock in
theorem periodsStopped {e : Expansion} (found : periods input = some (.returned (.ok e))) :
    ∃ first length passed rest, firstPeriod input = some (some first) ∧ Stopped input first e length passed rest := by
  simp only [periods,bind,Option.bind_eq_some_iff] at found
  obtain ⟨windowEnd,read,from_,start,found⟩ := found
  cases from_ with
  | none => cases found
  | some first =>
    obtain ⟨length,walked | ⟨produced,past,walked⟩⟩ := walkWalked found
    · generalize visited : (List.range' first length).flatMap (occurrencesIn input) = all at walked
      cases walked with
      | @ended pre x post exhausted passed ends =>
        rw [Nat.zero_add] at ends
        exact ⟨first,length,pre,x :: post,start,visited,passed,by simp [Progress.and],.inr ⟨x,post,rfl,ends⟩⟩
    · obtain ⟨occurrences,exhausted⟩ := e
      generalize visited : (List.range' first length).flatMap (occurrencesIn input) = all at walked
      generalize last : (⟨occurrences,produced⟩ : Progress) = later at walked
      cases walked with
      | next passed =>
        have same := congrArg Progress.occurrences last
        simp only [Progress.and,List.nil_append] at same
        exact ⟨first,length,all,[],start,by rw [visited,List.append_nil],passed,same,.inl ⟨rfl,windowEnd,read,past⟩⟩

omit s clock in
theorem wholeSeries {first length : Nat} {passed rest : List ExpandedOccurrence}
    (visited : (List.range' first length).flatMap (occurrencesIn input) = passed ++ rest) (extra : Nat) :
    (List.range (first + length + extra)).flatMap (occurrencesIn input) =
      (List.range' 0 first).flatMap (occurrencesIn input) ++
        (passed ++ (rest ++ (List.range' (first + length) extra).flatMap (occurrencesIn input))) := by
  rw [List.range_eq_range',← @List.range'_append_1 0 (first + length) extra,← @List.range'_append_1 0 first length,
    List.flatMap_append,List.flatMap_append,Nat.zero_add,Nat.zero_add,visited,List.append_assoc,List.append_assoc]

theorem skippedSeries {first : Nat} (start : firstPeriod input = some (some first)) {x : ExpandedOccurrence}
    (mem : x ∈ (List.range' 0 first).flatMap (occurrencesIn input)) :
    input.rule.count = none ∧ x.instant < input.window.start := by
  obtain ⟨k,-,less,occurs⟩ := memSeries s clock mem
  exact skippedBefore s start (by omega) occurs

omit s clock in
theorem countedPart {skipped passed left : List ExpandedOccurrence} (kept : Passed input 0 passed)
    (before : ∀ x ∈ skipped, input.rule.count = none) :
    ∃ part, part <+: left ∧ upToCount input.rule (skipped ++ (passed ++ left)) = skipped ++ (passed ++ part) ∧
      (beyondCount input.rule (passed.length + 1) = true → part = []) := by
  cases is : skipped with
  | nil => exact upToCountPassed kept
  | cons x others =>
    have none := before x (is ▸ List.mem_cons_self)
    exact ⟨_,List.prefix_rfl,by simp [upToCount,none],by simp [beyondCount,none]⟩

omit clock in
/- Of what the walk left, everything that COUNT lets through lies beyond UNTIL or beyond the window. -/
theorem leftOutside {first length : Nat} {e : Expansion} {passed rest part later : List ExpandedOccurrence}
    (stopped : Stopped input first e length passed rest) (firstPart : part <+: rest ++ later)
    (ordered : (rest ++ later).Pairwise Precedes) (occurs : ∀ x ∈ rest ++ later, ∃ k, OccursIn input k x)
    (beyond : ∀ x ∈ later, ∃ k, first + length ≤ k ∧ OccursIn input k x)
    (cut : beyondCount input.rule (passed.length + 1) = true → part = []) :
    ∀ y ∈ part, beyondUntil input.rule y.reading y.instant = true ∨ input.window.stop ≤ y.instant := by
  intro y mem
  have there := firstPart.subset mem
  rcases stopped.reason with ⟨rfl,windowEnd,read,past⟩ | ⟨x,post,rfl,ends⟩
  · obtain ⟨k,le,inK⟩ := beyond y there
    exact .inr (stoppedAfter s read past le inK)
  · have since : y = x ∨ Precedes x y := by
      rcases List.mem_cons.mp there with same | later
      · exact .inl same
      · exact .inr ((List.pairwise_cons.mp ordered).1 y later)
    obtain ⟨k,inK⟩ := occurs x (by simp)
    obtain ⟨k',inK'⟩ := occurs y there
    rcases ends with past | last | late
    · rcases since with rfl | precedes
      · exact .inl past
      · exact .inl (beyondUntilStays inK inK' precedes past)
    · rw [cut last] at mem
      cases mem
    · rcases since with rfl | precedes
      · exact .inr late
      · exact .inr (le_trans late (le_of_lt precedes.2))

omit s clock in
theorem filterOutside {xs : List ExpandedOccurrence} (outside : ∀ x ∈ xs, x.instant < input.window.start ∨
    beyondUntil input.rule x.reading x.instant = true ∨ input.window.stop ≤ x.instant) :
    xs.filter (fun x => within input.window x && !beyondUntil input.rule x.reading x.instant) = [] := by
  refine List.filter_eq_nil_iff.mpr (fun x mem => ?_)
  simp only [within,Bool.and_eq_true,decide_eq_true_eq]
  rintro ⟨⟨low,high⟩,inside⟩
  rcases outside x mem with before | beyond | late
  · exact absurd low (Int.not_le.mpr before)
  · simp [beyond] at inside
  · exact absurd high (Int.not_lt.mpr late)

theorem plainStopped {first length : Nat} {e : Expansion} {passed rest : List ExpandedOccurrence}
    (start : firstPeriod input = some (some first)) (stopped : Stopped input first e length passed rest)
    {more : Nat} (enough : first + length ≤ more) : plain input more = e.occurrences := by
  obtain ⟨extra,rfl⟩ := Nat.exists_eq_add_of_le enough
  have all := wholeSeries stopped.visited extra
  have ordered := seriesOrdered s clock 0 (first + length + extra)
  have before := fun x => @skippedSeries _ s clock first start x
  have occurs := fun x => @memSeries _ s clock 0 (first + length + extra) x
  have stays := fun xs => @untilStays _ s clock 0 (first + length + extra) xs
  have beyond : ∀ x ∈ (List.range' (first + length) extra).flatMap (occurrencesIn input),
      ∃ k, first + length ≤ k ∧ OccursIn input k x := by
    intro x mem
    obtain ⟨k,le,-,inK⟩ := memSeries s clock mem
    exact ⟨k,le,inK⟩
  rw [← List.range_eq_range',all] at ordered occurs stays
  generalize (List.range' 0 first).flatMap (occurrencesIn input) = skipped at all ordered occurs stays before
  generalize (List.range' (first + length) extra).flatMap (occurrencesIn input) = later at all ordered occurs stays beyond
  obtain ⟨part,firstPart,counted,cut⟩ :=
    @countedPart input skipped passed (rest ++ later) stopped.kept (fun x mem => (before x mem).1)
  have after := leftOutside s stopped firstPart
    (List.pairwise_append.mp (List.pairwise_append.mp ordered).2.1).2.1
    (fun x mem => (occurs x (by simp only [List.mem_append] at mem ⊢; exact .inr (.inr mem))).imp fun _ in_ => in_.2.2)
    beyond cut
  have below : (skipped ++ (passed ++ part)).Sublist (skipped ++ (passed ++ (rest ++ later))) :=
    (List.Sublist.refl _).append ((List.Sublist.refl _).append firstPart.sublist)
  have kept : passed.filter (fun x => within input.window x && !beyondUntil input.rule x.reading x.instant) =
      passed.filter (within input.window) := by
    refine List.filter_congr (fun x mem => ?_)
    simp [(stopped.kept.1 x mem).1]
  rw [plain,all,counted,takeWhileStays (stays _ below),stopped.occurrences,List.filter_filter,List.filter_append,
    List.filter_append,filterOutside (fun x mem => .inl (before x mem).2),kept,
    filterOutside (fun y mem => .inr (after y mem)),List.append_nil,List.nil_append]

end

/-- Where expansion ends by itself, it finds the occurrences of the plain walk, in order. -/
theorem expandPlain {e : Expansion} (start : StartDate input.dtstart.toDate)
    (clock : LocalDateTime.Clock input.dtstart) (ok : expand input = some (.ok e))
    (ended : ∀ progress, periods input ≠ some (.next progress)) :
    (∃ enough, ∀ more ≥ enough, plain input more = e.occurrences) ∧
      e.occurrences.Pairwise (fun x y => x.instant < y.instant) := by
  have found : periods input = some (.returned (.ok e)) := by
    simp only [expand,bind,Option.bind_eq_some_iff] at ok
    obtain ⟨pass,found,result⟩ := ok
    cases pass with
    | next progress => exact absurd found (ended progress)
    | returned result' =>
      cases result
      exact found
  obtain ⟨first,length,passed,rest,from_,stopped⟩ := periodsStopped found
  refine ⟨⟨first + length,fun more enough => plainStopped start.day clock from_ stopped enough⟩,?_⟩
  have ordered := stopped.visited ▸ seriesOrdered start.day clock first length
  rw [stopped.occurrences]
  exact ((List.pairwise_append.mp ordered).1.filter _).imp And.right

def twoHoursEast : Zone := .fixed 7200 (by decide) (by decide)

def lastFridays : ExpandInput where
  rule := lastFriday
  dtstart := ⟨⟨2026,1,30⟩,9,0,0⟩
  zone := twoHoursEast
  window := ⟨1772236800000,1780000000000⟩
  limit := maxOccurrences

def inSpring : Expansion :=
  ⟨[⟨⟨⟨2026,3,27⟩,9,0,0⟩,1774594800000⟩,⟨⟨⟨2026,4,24⟩,9,0,0⟩,1777014000000⟩],false⟩

theorem lastFridaysPlain : (∃ enough, ∀ more ≥ enough, plain lastFridays more = inSpring.occurrences) ∧
    inSpring.occurrences.Pairwise (fun x y => x.instant < y.instant) := by
  have returned : periods lastFridays = some (.returned (.ok inSpring)) := by decide +kernel
  exact expandPlain (by decide) (by decide) (by decide +kernel) (fun progress => by rw [returned]; simp)

end FamilyPlatform.Recurrence
