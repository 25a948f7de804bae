import FamilyPlatform.Kernel.Plain
import FamilyPlatform.Kernel.RuleRoundTrip

/-! What an expansion finds, to whichever end it comes, and so the first occurrence
after an instant: an occurrence of the rule, in the window that was asked for. -/
namespace FamilyPlatform.Recurrence
open ZonedTime Civil RecurrenceRule

section
variable {input : ExpandInput}

theorem walkExhausted {windowEnd : LocalDate} {fuel k : Nat} {progress later : Progress}
    (found : walk input windowEnd fuel k progress = some (.next later)) :
    Walked input progress ((List.range' k fuel).flatMap (occurrencesIn input)) (.next later) := by
  induction fuel generalizing k progress with
  | zero =>
    cases found
    have := @Walked.next input later [] ⟨by simp,.inl rfl⟩
    simpa [Progress.and] using this
  | succ fuel ih =>
    unfold walk at found
    split at found
    · cases found
    · simp only [bind,Option.bind_eq_some_iff] at found
      obtain ⟨first,visited,found⟩ := found
      cases first with
      | next between =>
        rw [List.range'_succ,List.flatMap_cons]
        exact (visitAllWalked visited).append (ih found)
      | returned result => cases found

structure Listed (input : ExpandInput) (x : ExpandedOccurrence) : Prop where
  inside : within input.window x = true
  passed : ∃ first length passed rest, (input.rule.count.isSome = true → first = 0) ∧
    (List.range' first length).flatMap (occurrencesIn input) = passed ++ rest ∧ Passed input 0 passed ∧ x ∈ passed

theorem Listed.occurs {x : ExpandedOccurrence} (listed : Listed input x) : ∃ k, x ∈ occurrencesIn input k := by
  obtain ⟨first,length,passed,rest,-,visited,-,mem⟩ := listed.passed
  obtain ⟨k,-,there⟩ := List.mem_flatMap.mp (visited ▸ List.mem_append_left rest mem)
  exact ⟨k,there⟩

theorem Listed.notBeyond {x : ExpandedOccurrence} (listed : Listed input x) :
    beyondUntil input.rule x.reading x.instant = false := by
  obtain ⟨-,-,passed,-,-,-,kept,mem⟩ := listed.passed
  exact (kept.1 x mem).1

theorem firstCounted {first : Nat} (found : firstPeriod input = some (some first)) :
    input.rule.count.isSome = true → first = 0 := by
  intro counted
  rw [firstPeriod,if_pos counted] at found
  exact (Option.some.inj (Option.some.inj found)).symm

theorem expandListed {e : Expansion} (ok : expand input = some (.ok e)) {x : ExpandedOccurrence}
    (mem : x ∈ e.occurrences) : Listed input x := by
  simp only [expand,bind,Option.bind_eq_some_iff] at ok
  obtain ⟨pass,found,result⟩ := ok
  cases pass with
  | returned result' =>
    cases result
    obtain ⟨first,length,passed,rest,start,stopped⟩ := periodsStopped found
    obtain ⟨source,inside⟩ := List.mem_filter.mp (stopped.occurrences ▸ mem)
    exact ⟨inside,first,length,passed,rest,firstCounted start,stopped.visited,stopped.kept,source⟩
  | next progress =>
    cases result
    simp only [periods,bind,Option.bind_eq_some_iff] at found
    obtain ⟨windowEnd,-,from_,start,found⟩ := found
    cases from_ with
    | none =>
      cases found
      cases mem
    | some first =>
      have walked := walkExhausted found
      generalize visited : (List.range' first maxPeriods).flatMap (occurrencesIn input) = all at walked
      generalize last : (Pass.next progress) = pass at walked
      cases walked with
      | next passed =>
        cases last
        obtain ⟨source,inside⟩ := List.mem_filter.mp (by simpa [Progress.and] using mem)
        exact ⟨inside,first,maxPeriods,all,[],firstCounted start,by rw [visited,List.append_nil],passed,source⟩
      | ended => cases last
      | refused => cases last

theorem Listed.plain (s : StartDay input.dtstart.toDate) (clock : LocalDateTime.Clock input.dtstart)
    {x : ExpandedOccurrence} (listed : Listed input x) : ∃ periods, x ∈ plain input periods := by
  obtain ⟨first,length,passed,rest,start,visited,kept,mem⟩ := listed.passed
  obtain ⟨skipped,isSkipped⟩ : ∃ xs, (List.range' 0 first).flatMap (occurrencesIn input) = xs := ⟨_,rfl⟩
  have all : (List.range (first + length)).flatMap (occurrencesIn input) = skipped ++ (passed ++ rest) := by
    rw [List.range_eq_range',← @List.range'_append_1 0 first length,List.flatMap_append,Nat.zero_add,isSkipped,visited]
  obtain ⟨counted,is,part,there⟩ : ∃ counted, upToCount input.rule (skipped ++ (passed ++ rest)) = counted ∧
      counted.Sublist (skipped ++ (passed ++ rest)) ∧ x ∈ counted := by
    cases count : input.rule.count with
    | none => exact ⟨_,by simp [upToCount,count],.refl _,by simp [mem]⟩
    | some n =>
      obtain rfl := start (by rw [count]; rfl)
      obtain rfl : skipped = [] := isSkipped.symm
      obtain ⟨part,firstPart,same,-⟩ := @upToCountPassed input passed rest kept
      exact ⟨_,same,(List.Sublist.refl passed).append firstPart.sublist,by simp [mem]⟩
  have stays := @untilStays _ s clock 0 (first + length) counted (by rw [← List.range_eq_range',all]; exact part)
  refine ⟨first + length,?_⟩
  rw [Recurrence.plain,all,is,takeWhileStays stays]
  simp only [List.mem_filter,there,listed.notBeyond,Bool.not_false,listed.inside,and_self]

end

theorem plainOccurs {input : ExpandInput} {periods : Nat} {x : ExpandedOccurrence} (mem : x ∈ plain input periods) :
    ∃ k, x ∈ occurrencesIn input k := by
  have counted : x ∈ upToCount input.rule ((List.range periods).flatMap (occurrencesIn input)) :=
    List.takeWhile_subset _ (List.mem_of_mem_filter mem)
  have there : x ∈ (List.range periods).flatMap (occurrencesIn input) := by
    unfold upToCount at counted
    split at counted
    · exact List.mem_of_mem_take counted
    · exact counted
    · exact counted
  obtain ⟨k,-,occurs⟩ := List.mem_flatMap.mp there
  exact ⟨k,occurs⟩

theorem stepsFound {input : NextOccurrenceInput} {x : ExpandedOccurrence} {steps spanDays : Nat} {start : Instant}
    (found : stepWindows input steps start spanDays = some (.ok (some x))) : start ≤ x.instant ∧ ∃ window e,
      expand ⟨input.rule,input.dtstart,input.zone,window,maxOccurrences⟩ = some (.ok e) ∧ x ∈ e.occurrences := by
  induction steps generalizing start spanDays with
  | zero => cases found
  | succ steps ih =>
    simp only [stepWindows,bind,Option.bind_eq_some_iff] at found
    obtain ⟨result,expanded,found⟩ := found
    split at found
    · cases found
    split at found
    · rename_i first rest is
      cases found
      have mem : x ∈ Expansion.occurrences _ := is ▸ List.mem_cons_self
      have inside := (expandListed expanded mem).inside
      simp only [within,Bool.and_eq_true,decide_eq_true_eq] at inside
      exact ⟨inside.1,_,_,expanded,mem⟩
    · split at found
      · cases found
      · obtain ⟨later,listed⟩ := ih found
        refine ⟨le_trans ?_ later,listed⟩
        have positive : (0 : Int) ≤ spanDays * msPerDay := Int.mul_nonneg (Int.natCast_nonneg _) (by decide)
        exact le_add_of_nonneg_right positive

theorem nextListed {input : NextOccurrenceInput} {x : ExpandedOccurrence}
    (found : nextOccurrenceAfter input = some (.ok (some x))) : input.after < x.instant ∧
      ∃ window, Listed ⟨input.rule,input.dtstart,input.zone,window,maxOccurrences⟩ x := by
  obtain ⟨later,window,e,expanded,mem⟩ := stepsFound found
  exact ⟨lt_of_lt_of_le (Int.lt_succ _) later,window,expandListed expanded mem⟩

theorem nextOccurs {input : NextOccurrenceInput} (s : StartDay input.dtstart.toDate)
    (clock : LocalDateTime.Clock input.dtstart) {x : ExpandedOccurrence}
    (found : nextOccurrenceAfter input = some (.ok (some x))) :
    input.after < x.instant ∧
      ∃ window k, OccursIn ⟨input.rule,input.dtstart,input.zone,window,maxOccurrences⟩ k x := by
  obtain ⟨later,window,listed⟩ := nextListed found
  obtain ⟨k,mem⟩ := listed.occurs
  exact ⟨later,window,k,memOccurrencesIn s clock mem⟩

theorem toEpochDayUntil {date : LocalDate} (valid : UntilDate date) : ∃ n, toEpochDay date = some n := by
  have bounds := yearsWithin valid.written valid.year.1 valid.year.2
  obtain ⟨ms,utc,-⟩ := localAsUtcMsModerate (l := atTime date 0 0 0) ⟨valid.written,by simp [LocalDateTime.Clock,atTime],
    le_trans (by decide) bounds.1,le_trans bounds.2 (by decide)⟩
  exact ⟨_,by rw [toEpochDay,utc,Option.map_some]⟩

def UpToUntil (rule : RecurrenceRule) (x : ExpandedOccurrence) : Prop :=
  match rule.until with
  | none => True
  | some (.date last) => x.reading.toDate.number ≤ last.number
  | some (.utc last) => x.instant ≤ last
  | some (.reading last) => secondOf x.reading ≤ secondOf last

theorem notBeyondUpTo {input : ExpandInput} (s : StartDay input.dtstart.toDate) (exact_ : Exact input.rule) {k : Nat}
    {x : ExpandedOccurrence} (of : OccursIn input k x)
    (notBeyond : beyondUntil input.rule x.reading x.instant = false) : UpToUntil input.rule x := by
  have start := s.low
  have since := of.since
  have low := of.inPeriod.low
  unfold beyondUntil at notBeyond
  unfold UpToUntil
  cases last : input.rule.until with
  | none => trivial
  | some moment =>
    have valid := exact_.moment moment last
    rw [last] at notBeyond
    cases moment with
    | date date =>
      obtain ⟨n,day⟩ := toEpochDayUntil valid
      simp only [compareLocalDates,bind,toEpochDayReal of.inPeriod.real (by unfold earliest; omega) of.inPeriod.high,day,
        Option.bind_some,Option.any_some,decide_eq_false_iff_not] at notBeyond
      have := toEpochDayAny valid.written day (by omega)
      simp only
      omega
    | utc instant => simpa using notBeyond
    | reading reading =>
      obtain ⟨date,clock⟩ := valid
      have bounds := yearsWithin date.written date.year.1 date.year.2
      obtain ⟨ms,utc,-⟩ := localAsUtcMsModerate ⟨date.written,clock,le_trans (by decide) bounds.1,
        le_trans bounds.2 (by decide)⟩
      obtain ⟨ms',utc'⟩ := localToInstantReads of.resolved
      have read := (localAsUtcMsSource of.inPeriod.real of.clocked (by unfold earliest; omega) utc').1
      simp only [compareLocalDateTimes,bind,utc,utc',Option.bind_some,Option.any_some,decide_eq_false_iff_not]
        at notBeyond
      have day := secondDay of.clocked
      simp only
      by_cases early : reading.toDate.number < -719162
      · have := localAsUtcMsEarly date.written clock early utc
        unfold msPerDay at this
        omega
      · have := (localAsUtcMsSource date.written clock (by unfold earliest; omega) utc).1
        omega

section
variable {input : ExpandInput} (s : StartDay input.dtstart.toDate) (clock : LocalDateTime.Clock input.dtstart)
include s clock

theorem occursCandidate {k : Nat} {x : ExpandedOccurrence} (mem : x ∈ occurrencesIn input k) :
    some x.reading.toDate ∈ candidatesForPeriod input.rule input.dtstart.toDate k := by
  rw [occurrencesSome] at mem
  obtain ⟨d,source,found⟩ := List.mem_filterMap.mp mem
  obtain ⟨_,there,rfl⟩ := List.mem_filterMap.mp source
  exact (occurrenceSource s clock there found).1 ▸ there

theorem candidateOccurs {k : Nat} {d : LocalDate}
    (source : some d ∈ candidatesForPeriod input.rule input.dtstart.toDate k)
    (since : input.dtstart.toDate.number ≤ d.number) {i : Instant}
    (resolved : localToInstant input.zone (atTime d input.dtstart.hour input.dtstart.minute input.dtstart.second) = some i) :
    ⟨atTime d input.dtstart.hour input.dtstart.minute input.dtstart.second,i⟩ ∈ occurrencesIn input k := by
  have inPeriod := memCandidatesPeriod s source
  have low := inPeriod.low
  have startLow := s.low
  have startHigh := s.last
  have long := clockBounds clock
  have start := localAsUtcMsReal s.real clock (by unfold earliest; omega) (by unfold latest msPerDay at *; omega)
  obtain ⟨ms,utc⟩ := localToInstantReads resolved
  have read := (localAsUtcMsSource (l := atTime d input.dtstart.hour input.dtstart.minute input.dtstart.second)
    inPeriod.real clock (by unfold earliest; exact le_trans (by decide) low) utc).1
  have notBefore : ¬ (compareLocalDateTimes (atTime d input.dtstart.hour input.dtstart.minute input.dtstart.second)
      input.dtstart).any (· < 0) := by
    rw [← secondMs] at read
    simp only [compareLocalDateTimes,utc,start,bind,Option.bind_some,Option.any_some,decide_eq_true_eq]
    simp only [clockMs,atTime,msPerDay] at *
    omega
  refine List.mem_filterMap.mpr ⟨some d,source,?_⟩
  simp only [occurrenceAt,bind,Option.bind_some,if_neg notBefore,resolved]

theorem Listed.counted {x : ExpandedOccurrence} (listed : Listed input x) {n : Nat}
    (is : input.rule.count = some (.finite n)) : ∃ passed : List ExpandedOccurrence, passed.length ≤ n ∧ x ∈ passed ∧
      ∀ k, ∀ y ∈ occurrencesIn input k, y.reading.toDate.number < x.reading.toDate.number → y ∈ passed := by
  obtain ⟨first,length,passed,rest,start,visited,kept,mem⟩ := listed.passed
  obtain rfl := start (by rw [is]; rfl)
  refine ⟨passed,?_,mem,fun k y there less => ?_⟩
  · rcases kept.2 with rfl | counted
    · exact Nat.zero_le n
    · simpa [beyondCount,is] using counted
  obtain ⟨k',from_,below,occurs⟩ := memSeries s clock (visited ▸ List.mem_append_left rest mem)
  have reached : k < 0 + length := by
    by_contra beyond
    have later := laterPeriod occurs (memOccurrencesIn s clock there) (show k' < k by omega)
    exact absurd later.1 (by omega)
  have all : y ∈ passed ++ rest := visited ▸ List.mem_flatMap.mpr ⟨k,List.mem_range'_1.mpr ⟨Nat.zero_le k,reached⟩,there⟩
  rcases List.mem_append.mp all with before | after
  · exact before
  · have ordered := seriesOrdered s clock 0 length
    rw [visited] at ordered
    have later := (List.pairwise_append.mp ordered).2.2 x mem y after
    exact absurd later.1 (by omega)

end

end FamilyPlatform.Recurrence
