import FamilyPlatform.Kernel.Complete

/-! When an expansion throws: it comes to a date past the range of `Date`, and nothing
inside the range has stopped it. -/
namespace FamilyPlatform.Recurrence
open ZonedTime Civil RecurrenceRule

section
variable (input : ExpandInput)

/- A candidate before the anchor is passed over, any other is resolved to an instant. -/
def Resolves (date : Option LocalDate) : Prop :=
  ∃ d, date = some d ∧
    let reading := atTime d input.dtstart.hour input.dtstart.minute input.dtstart.second
    (compareLocalDateTimes reading input.dtstart).any (· < 0) = true ∨ ∃ i, localToInstant input.zone reading = some i

/- None of the occurrences stops the loops: by UNTIL or COUNT, at the end of the window or
at the limit. -/
structure Stays (progress : Progress) (xs : List ExpandedOccurrence) : Prop where
  passed : Passed input progress.produced xs
  limited : xs.filter (within input.window) = [] ∨
    progress.occurrences.length + (xs.filter (within input.window)).length ≤ input.limit

end

section
variable {input : ExpandInput} {progress : Progress} {date : Option LocalDate} {dates : List (Option LocalDate)}

theorem staysNone : Stays input progress [] := ⟨⟨by simp,.inl rfl⟩,.inl rfl⟩

theorem countLess {rule : RecurrenceRule} {m n : Nat} (le : m ≤ n) (within : beyondCount rule n = false) :
    beyondCount rule m = false := by
  unfold beyondCount at *
  split
  · simp_all only [decide_eq_false_iff_not,Nat.not_lt]
    omega
  · rfl
  · rfl

theorem staysAppend {xs ys : List ExpandedOccurrence} :
    Stays input progress (xs ++ ys) ↔ Stays input progress xs ∧ Stays input (progress.and input xs) ys := by
  constructor
  · rintro ⟨⟨each,count⟩,limited⟩
    rw [List.filter_append,List.append_eq_nil_iff,List.length_append] at limited
    rw [List.append_eq_nil_iff,List.length_append] at count
    refine ⟨⟨⟨fun x mem => each x (List.mem_append_left _ mem),?_⟩,?_⟩,
      ⟨⟨fun x mem => each x (List.mem_append_right _ mem),?_⟩,?_⟩⟩
    · exact count.imp And.left (countLess (by omega))
    · exact limited.imp And.left (fun le => by omega)
    · exact count.imp And.right (fun within => by rwa [Progress.and,Nat.add_assoc])
    · refine limited.imp And.right (fun le => ?_)
      simp only [Progress.and,List.length_append]
      omega
  · rintro ⟨first,second⟩
    refine ⟨first.passed.append second.passed,?_⟩
    have limit := second.limited
    simp only [Progress.and,List.length_append] at limit
    rw [List.filter_append,List.append_eq_nil_iff,List.length_append]
    rcases limit with none_ | le
    · rw [none_]
      exact first.limited.imp (fun is => ⟨is,rfl⟩) id
    · exact .inr (by omega)

theorem staysOne {x : ExpandedOccurrence} : Stays input progress [x] ↔
    beyondUntil input.rule x.reading x.instant = false ∧ beyondCount input.rule (progress.produced + 1) = false ∧
      x.instant < input.window.stop ∧
        (within input.window x = false ∨ progress.occurrences.length + 1 ≤ input.limit) := by
  constructor
  · rintro ⟨⟨each,count⟩,limited⟩
    obtain ⟨notUntil,before⟩ := each x List.mem_cons_self
    refine ⟨notUntil,count.resolve_left (by simp),before,?_⟩
    cases inside : within input.window x with
    | false => exact .inl rfl
    | true => simpa [inside] using limited
  · rintro ⟨notUntil,count,before,limited⟩
    refine ⟨⟨fun y mem => ?_,.inr count⟩,?_⟩
    · rw [List.mem_singleton.mp mem]
      exact ⟨notUntil,before⟩
    · cases inside : within input.window x with
      | false => exact .inl (by simp [inside])
      | true => simpa [inside] using limited

theorem visitThrows : visit input progress date = none ↔ ¬ Resolves input date := by
  cases date with
  | none => simp [visit,Resolves]
  | some d =>
    simp only [visit,Resolves,bind,Option.bind_some,Option.some.injEq,exists_eq_left']
    generalize atTime d input.dtstart.hour input.dtstart.minute input.dtstart.second = reading
    split
    · rename_i before
      simp [before]
    · rename_i since
      cases localToInstant input.zone reading with
      | none => simp [since]
      | some instant =>
        simp only [Option.bind_some,Option.some.injEq,exists_eq',or_true,not_true_eq_false,iff_false]
        split_ifs <;> exact id

theorem visitStays (resolves : Resolves input date) :
    (Stays input progress (occurrenceAt input date).toList ∧
      visit input progress date = some (.next (progress.and input (occurrenceAt input date).toList))) ∨
    (¬ Stays input progress (occurrenceAt input date).toList ∧
      ∃ result, visit input progress date = some (.returned result)) := by
  obtain ⟨d,rfl,resolves⟩ := resolves
  simp only [occurrenceAt,visit,bind,Option.bind_some]
  generalize atTime d input.dtstart.hour input.dtstart.minute input.dtstart.second = reading at *
  by_cases before : (compareLocalDateTimes reading input.dtstart).any (· < 0) = true
  · simp only [if_pos before,Option.toList_none]
    exact .inl ⟨staysNone,by simp [Progress.and]⟩
  obtain ⟨instant,resolved⟩ := resolves.resolve_left before
  simp only [if_neg before,resolved,Option.bind_some,Option.toList_some]
  have inside : within input.window ⟨reading,instant⟩ = true ↔
      input.window.start ≤ instant ∧ instant < input.window.stop := by
    simp only [within,Bool.and_eq_true,decide_eq_true_eq]
  rw [staysOne]
  by_cases notUntil : beyondUntil input.rule reading instant = true
  · exact .inr ⟨by simp [notUntil],_,if_pos notUntil⟩
  by_cases notCount : beyondCount input.rule (progress.produced + 1) = true
  · exact .inr ⟨by simp [notCount],_,by rw [if_neg notUntil,if_pos notCount]⟩
  by_cases notStopped : input.window.stop ≤ instant
  · exact .inr ⟨by simp [notStopped],_,by rw [if_neg notUntil,if_neg notCount,if_pos notStopped]⟩
  rw [if_neg notUntil,if_neg notCount,if_neg notStopped]
  simp only [Bool.not_eq_true] at notUntil notCount
  simp only [notUntil,notCount,Int.not_le.mp notStopped,true_and]
  by_cases early : instant < input.window.start
  · have outside : within input.window ⟨reading,instant⟩ = false := by
      rw [← Bool.not_eq_true,inside]
      exact fun both => absurd (lt_of_lt_of_le early both.1) (lt_irrefl _)
    simp only [outside,if_pos early,true_or,true_and]
    exact .inl (by simp [Progress.and,outside])
  · have there : within input.window ⟨reading,instant⟩ = true := inside.mpr ⟨Int.not_lt.mp early,Int.not_le.mp notStopped⟩
    rw [if_neg early]
    simp only [there,Bool.true_eq_false,false_or,List.length_append,List.length_singleton]
    by_cases full : input.limit < progress.occurrences.length + 1
    · exact .inr ⟨by omega,_,if_pos full⟩
    · rw [if_neg full]
      exact .inl ⟨by omega,by simp [Progress.and,there]⟩

theorem filterMapCons {α β : Type} (f : α → Option β) (a : α) (rest : List α) :
    (a :: rest).filterMap f = (f a).toList ++ rest.filterMap f := by
  cases is : f a <;> simp [is]

theorem visitedStays {later : Progress} (visited : visit input progress date = some (.next later)) :
    Stays input progress (occurrenceAt input date).toList ∧ later = progress.and input (occurrenceAt input date).toList := by
  have resolves : Resolves input date := by
    by_contra not
    cases visited.symm.trans (visitThrows.mpr not)
  rcases visitStays resolves with ⟨stays,is⟩ | ⟨-,result,is⟩
  · cases visited.symm.trans is
    exact ⟨stays,rfl⟩
  · cases visited.symm.trans is

theorem visitAllNext {later : Progress} (visited : visitAll input progress dates = some (.next later)) :
    Stays input progress (dates.filterMap (occurrenceAt input)) ∧
      later = progress.and input (dates.filterMap (occurrenceAt input)) := by
  induction dates generalizing progress with
  | nil =>
    cases visited
    exact ⟨staysNone,by simp [Progress.and]⟩
  | cons date rest ih =>
    simp only [visitAll,bind,Option.bind_eq_some_iff] at visited
    obtain ⟨pass,first,visited⟩ := visited
    cases pass with
    | next between =>
      obtain ⟨here,rfl⟩ := visitedStays first
      obtain ⟨others,rfl⟩ := ih visited
      rw [filterMapCons,staysAppend,andAppend]
      exact ⟨⟨here,others⟩,rfl⟩
    | returned result => cases visited

theorem visitAllGoes (stays : Stays input progress (dates.filterMap (occurrenceAt input))) :
    visitAll input progress dates = none ∨
      visitAll input progress dates = some (.next (progress.and input (dates.filterMap (occurrenceAt input)))) := by
  induction dates generalizing progress with
  | nil => exact .inr (by simp [visitAll,Progress.and])
  | cons date rest ih =>
    rw [filterMapCons,staysAppend] at stays
    by_cases resolves : Resolves input date
    · rcases @visitStays _ progress _ resolves with ⟨-,visited⟩ | ⟨not,-⟩
      · rw [filterMapCons,← andAppend]
        simp only [visitAll,visited,bind,Option.bind_some]
        exact ih stays.2
      · exact absurd stays.1 not
    · exact .inl (by simp only [visitAll,visitThrows.mpr resolves,bind,Option.bind_none])

theorem visitAllThrows : visitAll input progress dates = none ↔ ∃ pre date post, dates = pre ++ date :: post ∧
    ¬ Resolves input date ∧ Stays input progress (pre.filterMap (occurrenceAt input)) := by
  induction dates generalizing progress with
  | nil => simp [visitAll]
  | cons date rest ih =>
    by_cases resolves : Resolves input date
    swap
    · exact iff_of_true (by simp only [visitAll,visitThrows.mpr resolves,bind,Option.bind_none])
        ⟨[],date,rest,rfl,resolves,staysNone⟩
    -- The one that throws is among the others.
    have tail : (∃ pre bad post, date :: rest = pre ++ bad :: post ∧ ¬ Resolves input bad ∧
        Stays input progress (pre.filterMap (occurrenceAt input))) ↔
        Stays input progress (occurrenceAt input date).toList ∧ ∃ pre bad post, rest = pre ++ bad :: post ∧
          ¬ Resolves input bad ∧
          Stays input (progress.and input (occurrenceAt input date).toList) (pre.filterMap (occurrenceAt input)) := by
      constructor
      · rintro ⟨pre,bad,post,is,not,stays⟩
        cases pre with
        | nil => exact absurd resolves ((List.cons.inj is).1 ▸ not)
        | cons first pre =>
          obtain ⟨rfl,others⟩ := List.cons.inj is
          rw [filterMapCons,staysAppend] at stays
          exact ⟨stays.1,pre,bad,post,others,not,stays.2⟩
      · rintro ⟨here,pre,bad,post,rfl,not,stays⟩
        exact ⟨date :: pre,bad,post,rfl,not,by rw [filterMapCons,staysAppend]; exact ⟨here,stays⟩⟩
    rw [tail]
    rcases @visitStays _ progress _ resolves with ⟨stays,visited⟩ | ⟨not,result,visited⟩
    · simp only [visitAll,visited,bind,Option.bind_some,stays,true_and]
      exact ih
    · simp only [visitAll,visited,bind,Option.bind_some,not,false_and,reduceCtorEq]

/- The walk gets to a period and visits it as far as a date that does not resolve. -/
def Throwing (input : ExpandInput) (progress : Progress) (windowEnd : LocalDate) (fuel k : Nat) : Prop :=
  ∃ j < fuel, (∀ i ≤ j, pastWindow input windowEnd (k + i) = false) ∧ ∃ pre date post,
    candidatesForPeriod input.rule input.dtstart.toDate (k + j) = pre ++ date :: post ∧ ¬ Resolves input date ∧
    Stays input progress ((List.range' k j).flatMap (occurrencesIn input) ++ pre.filterMap (occurrenceAt input))

theorem goingOn {windowEnd : LocalDate} {k j : Nat} (going : pastWindow input windowEnd k = false) :
    (∀ i ≤ j + 1, pastWindow input windowEnd (k + i) = false) ↔
      ∀ i ≤ j, pastWindow input windowEnd (k + 1 + i) = false := by
  constructor
  · intro all i le
    rw [Nat.add_assoc,Nat.add_comm 1 i]
    exact all (i + 1) (by omega)
  · intro rest i le
    cases i with
    | zero => exact going
    | succ i =>
      have := rest i (by omega)
      rwa [Nat.add_assoc,Nat.add_comm 1 i] at this

theorem throwingHere {windowEnd : LocalDate} {fuel k : Nat} (going : pastWindow input windowEnd k = false)
    (throws : visitAll input progress (candidatesForPeriod input.rule input.dtstart.toDate k) = none) :
    Throwing input progress windowEnd (fuel + 1) k := by
  obtain ⟨pre,date,post,is,not,stays⟩ := visitAllThrows.mp throws
  refine ⟨0,Nat.succ_pos _,fun i le => ?_,pre,date,post,is,not,by simpa using stays⟩
  obtain rfl : i = 0 := by omega
  exact going

theorem throwingLater {windowEnd : LocalDate} {fuel k : Nat} (going : pastWindow input windowEnd k = false)
    (here : Stays input progress (occurrencesIn input k)) :
    Throwing input (progress.and input (occurrencesIn input k)) windowEnd fuel (k + 1) →
      Throwing input progress windowEnd (fuel + 1) k := by
  rintro ⟨j,less,later,pre,date,post,is,not,stays⟩
  refine ⟨j + 1,by omega,(goingOn going).mpr later,pre,date,post,?_,not,?_⟩
  · rw [← is]
    congr 1
    omega
  · rw [List.range'_succ,List.flatMap_cons,List.append_assoc,staysAppend]
    exact ⟨here,stays⟩

theorem walkThrows {windowEnd : LocalDate} {fuel k : Nat} : walk input windowEnd fuel k progress = none ↔
    Throwing input progress windowEnd fuel k := by
  induction fuel generalizing k progress with
  | zero => simp [walk,Throwing]
  | succ fuel ih =>
    unfold walk
    by_cases past : pastWindow input windowEnd k = true
    · simp only [if_pos past,reduceCtorEq,false_iff]
      rintro ⟨j,-,going,-⟩
      have := going 0 (Nat.zero_le j)
      rw [Nat.add_zero,past] at this
      cases this
    simp only [if_neg past,bind,Option.bind_eq_none_iff]
    have going : pastWindow input windowEnd k = false := Bool.eq_false_iff.mpr past
    constructor
    · intro throws
      cases visited : visitAll input progress (candidatesForPeriod input.rule input.dtstart.toDate k) with
      | none => exact throwingHere going visited
      | some pass =>
        have rest := throws pass visited
        cases pass with
        | returned result => cases rest
        | next between =>
          obtain ⟨here,rfl⟩ := visitAllNext visited
          exact throwingLater going here (ih.mp rest)
    · rintro ⟨j,less,all,pre,date,post,is,not,stays⟩ pass visited
      cases j with
      | zero =>
        have throws := visitAllThrows.mpr ⟨pre,date,post,is,not,by simpa using stays⟩
        cases visited.symm.trans throws
      | succ j =>
        rw [List.range'_succ,List.flatMap_cons,List.append_assoc,staysAppend] at stays
        rcases visitAllGoes stays.1 with none_ | next
        · cases visited.symm.trans none_
        · cases visited.symm.trans next
          refine ih.mpr ⟨j,by omega,(goingOn going).mp all,pre,date,post,?_,not,stays.2⟩
          rw [← is]
          congr 1
          omega

end

section
variable {rule : RecurrenceRule} {start : LocalDate} (s : StartDay start) {k k' : Nat} {d : LocalDate}
include s

theorem dailyBeyond (freq : rule.freq = .daily) (none_ : (stepOf rule.interval k).bind (addDays start) = none)
    (less : k < k') : ¬ InPeriod rule start k' d := by
  intro inPeriod
  have low := s.low
  have high := inPeriod.high
  obtain ⟨interval,finite,period⟩ := inPeriod.period
  have more : ((k + 1 : Nat) : Int) * interval ≤ k' * interval := by exact_mod_cast Nat.mul_le_mul_right interval less
  have step : ((k + 1 : Nat) : Int) * interval = k * interval + interval := by push_cast; ring
  have positive : (0 : Int) ≤ k * interval := by exact_mod_cast Nat.zero_le (k * interval)
  simp only [periodIndex,freq] at period
  simp only [stepOf,finite] at none_
  split at none_
  · rw [Option.bind_some] at none_
    have last := s.last
    rw [addDaysReal s.real (by unfold earliest; omega) (by omega) (by unfold latest; omega) (by omega)] at none_
    cases none_
  · rename_i inexact
    have big : (2 ^ 53 : Nat) < k * interval := Nat.lt_of_not_le inexact
    have big' : (2 ^ 53 : Int) < k * interval := by exact_mod_cast big
    unfold latest at high
    omega

theorem weeklyBeyond (freq : rule.freq = .weekly) {i : Nat} (day : i < 7)
    (none_ : ((startOfWeek start rule.wkst).bind (fun first => (stepOf rule.interval k).bind (fun step =>
      addDays first (step * 7)))).bind (fun date => addDays date i) = none)
    (less : k < k') : ¬ InPeriod rule start k' d := by
  intro inPeriod
  have low := s.low
  have high := inPeriod.high
  have last := s.last
  obtain ⟨interval,finite,period⟩ := inPeriod.period
  have more : ((k + 1 : Nat) : Int) * interval ≤ k' * interval := by exact_mod_cast Nat.mul_le_mul_right interval less
  have step : ((k + 1 : Nat) : Int) * interval = k * interval + interval := by push_cast; ring
  have positive : (0 : Int) ≤ k * interval := by exact_mod_cast Nat.zero_le (k * interval)
  have one := intervalPositive finite
  have bounds := weekStartBounds rule.wkst start.number
  have bounds' := weekStartBounds rule.wkst d.number
  simp only [periodIndex,freq] at period
  rw [startOfWeekReal s.real low (by omega),Option.bind_some] at none_
  simp only [stepOf,finite] at none_
  split at none_
  · rw [Option.bind_some,addDaysReal (dateOfReal _) (by rw [numberOfDate]; unfold earliest; omega)
      (by rw [numberOfDate]; omega) (by rw [numberOfDate]; unfold latest; omega) (by rw [numberOfDate]; omega),
      Option.bind_some,addDaysReal (dateOfReal _) (by rw [numberOfDate,numberOfDate]; unfold earliest; omega)
      (by rw [numberOfDate,numberOfDate]; omega) (by rw [numberOfDate,numberOfDate]; unfold latest; omega)
      (by rw [numberOfDate,numberOfDate]; omega)] at none_
    cases none_
  · rename_i inexact
    have big : (2 ^ 53 : Nat) < k * interval := Nat.lt_of_not_le inexact
    have big' : (2 ^ 53 : Int) < k * interval := by exact_mod_cast big
    unfold latest at high
    omega

theorem noneBeyond (mem : none ∈ candidatesForPeriod rule start k) (less : k < k') : ¬ InPeriod rule start k' d := by
  obtain ⟨e,source,same⟩ := List.mem_map.mp mem
  have entry := (List.perm_insertionSort notAfter _).mem_iff.mp source
  have there := ((byEpochDaySource _).2 e entry).1
  rw [same] at there
  unfold periodDates at there
  cases freq : rule.freq <;> simp only [freq] at there
  · have is := List.mem_singleton.mp (List.mem_of_mem_filter there)
    exact dailyBeyond s freq is.symm less
  · obtain ⟨i,day,is⟩ := List.mem_map.mp (List.mem_of_mem_filter there)
    exact weeklyBeyond s freq (List.mem_range.mp day) is less
  · simp at there
  · simp at there

theorem noneLast {pre post : List (Option LocalDate)} (is : candidatesForPeriod rule start k = pre ++ none :: post) :
    some d ∉ post := by
  intro mem
  unfold candidatesForPeriod at is
  obtain ⟨first,rest,sorted,isPre,others⟩ := List.map_eq_append_iff.mp is
  obtain ⟨e,last,rfl,none_,isPost⟩ := List.map_eq_cons_iff.mp others
  obtain ⟨e',there,some_⟩ := List.mem_map.mp (isPost ▸ mem)
  have perm := List.perm_insertionSort notAfter (byEpochDay (periodDates rule start k))
  have ordered := List.pairwise_insertionSort notAfter (byEpochDay (periodDates rule start k))
  have source : ∀ x, x ∈ first ++ e :: last → x.2 ∈ periodDates rule start k ∧ x.1 = x.2.bind toEpochDay := fun x within =>
    (byEpochDaySource _).2 x (perm.mem_iff.mp (sorted ▸ within))
  obtain ⟨-,key⟩ := source e (by simp)
  obtain ⟨dated,key'⟩ := source e' (by simp [there])
  have inPeriod := memPeriodDates s (some_ ▸ dated)
  rw [none_,Option.bind_none] at key
  rw [some_,Option.bind_some,toEpochDayReal inPeriod.real (by have := inPeriod.low; unfold earliest; omega)
    inPeriod.high] at key'
  rw [sorted] at ordered
  have after := (List.pairwise_cons.mp (List.pairwise_append.mp ordered).2.1).1 e' there
  simp [notAfter,key,key'] at after

end

section
variable {input : ExpandInput} (s : StartDay input.dtstart.toDate) (clock : LocalDateTime.Clock input.dtstart)
include s clock

theorem resolvesEarlier {k k' : Nat} {d d' : LocalDate} (inK : InPeriod input.rule input.dtstart.toDate k d)
    (inK' : InPeriod input.rule input.dtstart.toDate k' d') (less : d.number < d'.number)
    (resolves : Resolves input (some d')) : Resolves input (some d) := by
  obtain ⟨_,is,resolves⟩ := resolves
  obtain rfl := Option.some.inj is
  have low := inK.low
  have low' := inK'.low
  have high := inK'.high
  have startLow := s.low
  have startHigh := s.last
  have bounds := clockBounds clock
  refine ⟨d,rfl,?_⟩
  rcases resolves with before | ⟨i,resolved⟩
  · left
    simp only [compareLocalDateTimes,bind,Option.any_eq_true,Option.bind_eq_some_iff,decide_eq_true_eq] at before
    obtain ⟨_,⟨left,utc,right,utc',is⟩,negative⟩ := before
    obtain rfl := Option.some.inj is
    obtain ⟨rfl,-⟩ := @localAsUtcMsSource (atTime d' _ _ _) _ inK'.real clock (by unfold earliest; exact le_trans (by decide) low') utc
    obtain ⟨rfl,-⟩ := localAsUtcMsSource s.real clock (by unfold earliest; omega) utc'
    have here := @localAsUtcMsReal (atTime d input.dtstart.hour input.dtstart.minute input.dtstart.second) inK.real clock
      (by unfold earliest; exact le_trans (by decide) low) (by
        change d.number * msPerDay + clockMs input.dtstart ≤ latest * msPerDay
        unfold latest msPerDay at *
        omega)
    have there := localAsUtcMsReal s.real clock (by unfold earliest; omega) (by unfold latest msPerDay at *; omega)
    simp only [compareLocalDateTimes,bind,here,there,Option.bind_some,Option.any_some,decide_eq_true_eq]
    change d.number * msPerDay + clockMs input.dtstart - _ < 0
    rw [← secondMs,← secondMs] at negative
    change d'.number * msPerDay + clockMs input.dtstart - _ < 0 at negative
    unfold msPerDay at *
    omega
  · refine .inr (@localToInstantEarlier _ (atTime d input.dtstart.hour input.dtstart.minute input.dtstart.second)
      (atTime d' input.dtstart.hour input.dtstart.minute input.dtstart.second) _ inK.real inK'.real clock clock low less
      rfl resolved)

theorem notResolvesPeriod {k : Nat} {pre post : List (Option LocalDate)} {date date' : Option LocalDate}
    (is : candidatesForPeriod input.rule input.dtstart.toDate k = pre ++ date :: post) (not : ¬ Resolves input date)
    (mem : date' ∈ post) : ¬ Resolves input date' := by
  rintro ⟨d',rfl,resolves⟩
  cases date with
  | none => exact noneLast s is mem
  | some d =>
    have inK := memCandidatesPeriod s (is ▸ (by simp) : some d ∈ candidatesForPeriod input.rule input.dtstart.toDate k)
    have inK' := memCandidatesPeriod s (is ▸ (by simp [mem]) :
      some d' ∈ candidatesForPeriod input.rule input.dtstart.toDate k)
    have ordered := @candidatesOrdered input.rule _ s k
    rw [is,List.filterMap_append,@List.filterMap_cons_some _ _ id (some d) _ d rfl] at ordered
    have less := (List.pairwise_cons.mp (List.pairwise_append.mp ordered).2.1).1 d' (List.mem_filterMap.mpr ⟨_,mem,rfl⟩)
    exact not (resolvesEarlier s clock inK inK' less ⟨d',rfl,resolves⟩)

theorem notResolvesLater {k k' : Nat} {date date' : Option LocalDate}
    (mem : date ∈ candidatesForPeriod input.rule input.dtstart.toDate k) (not : ¬ Resolves input date)
    (mem' : date' ∈ candidatesForPeriod input.rule input.dtstart.toDate k') (less : k < k') : ¬ Resolves input date' := by
  rintro ⟨d',rfl,resolves⟩
  have inK' := memCandidatesPeriod s mem'
  cases date with
  | none => exact noneBeyond s mem less inK'
  | some d =>
    have inK := memCandidatesPeriod s mem
    exact not (resolvesEarlier s clock inK inK' (periodOrder inK inK' less) ⟨d',rfl,resolves⟩)

omit s clock in
theorem occurrenceResolves {date : Option LocalDate} {x : ExpandedOccurrence} (found : occurrenceAt input date = some x) :
    Resolves input date := by
  simp only [occurrenceAt,bind,Option.bind_eq_some_iff] at found
  obtain ⟨d,rfl,found⟩ := found
  split at found
  · cases found
  · obtain ⟨i,resolved,-⟩ := Option.bind_eq_some_iff.mp found
    exact ⟨d,rfl,.inr ⟨i,resolved⟩⟩

theorem occursBefore {first j k : Nat} {pre post : List (Option LocalDate)} {date : Option LocalDate}
    (is : candidatesForPeriod input.rule input.dtstart.toDate (first + j) = pre ++ date :: post)
    (not : ¬ Resolves input date) (since : first ≤ k) {x : ExpandedOccurrence} (occurs : x ∈ occurrencesIn input k) :
    x ∈ (List.range' first j).flatMap (occurrencesIn input) ++ pre.filterMap (occurrenceAt input) := by
  obtain ⟨date',mem,found⟩ := List.mem_filterMap.mp occurs
  have resolves := occurrenceResolves found
  have there : date ∈ candidatesForPeriod input.rule input.dtstart.toDate (first + j) := is ▸ (by simp)
  rcases Nat.lt_trichotomy k (first + j) with less | rfl | after
  · exact List.mem_append_left _ (List.mem_flatMap.mpr ⟨k,List.mem_range'_1.mpr ⟨since,less⟩,occurs⟩)
  · rw [is] at mem
    rcases List.mem_append.mp mem with before | here
    · exact List.mem_append_right _ (List.mem_filterMap.mpr ⟨date',before,found⟩)
    · rcases List.mem_cons.mp here with rfl | behind
      · exact absurd resolves not
      · exact absurd resolves (notResolvesPeriod s clock is not behind)
  · exact absurd resolves (notResolvesLater s clock there not mem after)

end

def RealInstant (i : Instant) : Prop := -(latest * msPerDay) ≤ i ∧ i ≤ latest * msPerDay

instance (i : Instant) : Decidable (RealInstant i) := inferInstanceAs (Decidable (_ ∧ _))

/- A period that is visited has a date that does not resolve. None up to it begins after the
end of the window, and none of the occurrences before that date stops the walk. -/
def RunsOver (input : ExpandInput) : Prop := ∃ windowEnd first j pre date post,
  instantToLocal input.zone input.window.stop = some windowEnd ∧ firstPeriod input = some (some first) ∧ j < maxPeriods ∧
    (∀ i ≤ j, pastWindow input windowEnd.toDate (first + i) = false) ∧
    candidatesForPeriod input.rule input.dtstart.toDate (first + j) = pre ++ date :: post ∧ ¬ Resolves input date ∧
    Stays input ⟨[],0⟩ ((List.range' first j).flatMap (occurrencesIn input) ++ pre.filterMap (occurrenceAt input))

def Unstopped (input : ExpandInput) : Prop := ∃ windowEnd first j date,
  instantToLocal input.zone input.window.stop = some windowEnd ∧ firstPeriod input = some (some first) ∧ j < maxPeriods ∧
    (∀ i ≤ j, pastWindow input windowEnd.toDate (first + i) = false) ∧
    date ∈ candidatesForPeriod input.rule input.dtstart.toDate (first + j) ∧ ¬ Resolves input date ∧
    Stays input ⟨[],0⟩ ((List.range' first maxPeriods).flatMap (occurrencesIn input))

section
variable {input : ExpandInput}

theorem readsReal {zone : Zone} {i : Instant} (real : RealInstant i) : ∃ l, instantToLocal zone i = some l :=
  ⟨_,by rw [instantToLocal,timeClipSome real.1 real.2]; rfl⟩

theorem expandThrows (start : RealInstant input.window.start) (stop : RealInstant input.window.stop) :
    expand input = none ↔ RunsOver input := by
  obtain ⟨windowEnd,read⟩ := @readsReal input.zone _ stop
  obtain ⟨windowStart,read'⟩ := @readsReal input.zone _ start
  obtain ⟨from_,is⟩ : ∃ from_, firstPeriod input = some from_ := by
    unfold firstPeriod
    split
    · exact ⟨_,rfl⟩
    · rw [read']
      exact ⟨_,rfl⟩
  have same : expand input = none ↔ ∃ first, from_ = some first ∧ walk input windowEnd.toDate maxPeriods first ⟨[],0⟩ = none := by
    simp only [expand,periods,bind,read,is,Option.bind_some]
    cases from_ with
    | none => simp
    | some first =>
      simp only [Option.some.injEq,exists_eq_left']
      cases walk input windowEnd.toDate maxPeriods first ⟨[],0⟩ with
      | none => simp
      | some pass => cases pass <;> simp
  rw [same]
  constructor
  · rintro ⟨first,rfl,throws⟩
    obtain ⟨j,less,going,pre,date,post,split_,not,stays⟩ := walkThrows.mp throws
    exact ⟨windowEnd,first,j,pre,date,post,read,is,less,going,split_,not,stays⟩
  · rintro ⟨_,first,j,pre,date,post,reads,starts,less,going,split_,not,stays⟩
    cases read.symm.trans reads
    cases is.symm.trans starts
    exact ⟨first,rfl,walkThrows.mpr ⟨j,less,going,pre,date,post,split_,not,stays⟩⟩

theorem runsOverUnstopped (s : StartDay input.dtstart.toDate) (clock : LocalDateTime.Clock input.dtstart) :
    RunsOver input ↔ Unstopped input := by
  constructor
  · rintro ⟨windowEnd,first,j,pre,date,post,reads,starts,less,going,split_,not,stays⟩
    refine ⟨windowEnd,first,j,date,reads,starts,less,going,split_ ▸ (by simp),not,?_⟩
    obtain ⟨length,enough⟩ : ∃ length, maxPeriods = j + (length + 1) := ⟨maxPeriods - j - 1,by omega⟩
    have mem : date ∈ candidatesForPeriod input.rule input.dtstart.toDate (first + j) := split_ ▸ (by simp)
    -- There is none behind it.
    have rest : (date :: post).filterMap (occurrenceAt input) = [] := by
      refine List.filterMap_eq_nil_iff.mpr (fun date' there => Option.eq_none_iff_forall_ne_some.mpr (fun x found => ?_))
      have resolves := occurrenceResolves found
      rcases List.mem_cons.mp there with rfl | behind
      · exact not resolves
      · exact notResolvesPeriod s clock split_ not behind resolves
    have others : (List.range' (first + j + 1) length).flatMap (occurrencesIn input) = [] := by
      refine List.flatMap_eq_nil_iff.mpr (fun k source => List.eq_nil_iff_forall_not_mem.mpr (fun x occurs => ?_))
      obtain ⟨date',there,found⟩ := List.mem_filterMap.mp occurs
      have after := (List.mem_range'_1.mp source).1
      exact notResolvesLater s clock mem not there (by omega) (occurrenceResolves found)
    rw [enough,← List.range'_append_1,List.flatMap_append,List.range'_succ,List.flatMap_cons,others,occurrencesIn,split_,
      List.filterMap_append,rest,List.append_nil,List.append_nil]
    exact stays
  · rintro ⟨windowEnd,first,j,date,reads,starts,less,going,mem,not,stays⟩
    obtain ⟨pre,post,split_⟩ := List.append_of_mem mem
    refine ⟨windowEnd,first,j,pre,date,post,reads,starts,less,going,split_,not,?_⟩
    obtain ⟨length,enough⟩ : ∃ length, maxPeriods = j + (length + 1) := ⟨maxPeriods - j - 1,by omega⟩
    rw [enough,← List.range'_append_1,List.flatMap_append,List.range'_succ,List.flatMap_cons,occurrencesIn,split_,
      List.filterMap_append,List.append_assoc,← List.append_assoc] at stays
    exact (staysAppend.mp stays).1

/-- An expansion returns if and only if it does not come to a date that has no instant before anything stops it. From a
start in the year 1 or later that is where a visited period has such a date, no period up to that one begins behind the
window, and none of the occurrences of all the visited periods stops it. -/
theorem expandReturns (start : RealInstant input.window.start) (stop : RealInstant input.window.stop) :
    ((∃ result, expand input = some result) ↔ ¬ RunsOver input) ∧
      (StartDay input.dtstart.toDate → LocalDateTime.Clock input.dtstart → (RunsOver input ↔ Unstopped input)) := by
  refine ⟨?_,fun s clock => runsOverUnstopped s clock⟩
  rw [← expandThrows start stop]
  exact Option.ne_none_iff_exists'.symm

end

theorem evesReturn : ¬ RunsOver (lateOn ⟨1767000000000,1800000000000⟩) ∧
    ¬ Unstopped (lateOn ⟨1767000000000,1800000000000⟩) := by
  obtain ⟨returns,same⟩ := @expandReturns (lateOn ⟨1767000000000,1800000000000⟩) (by decide) (by decide)
  have expanded : expand (lateOn ⟨1767000000000,1800000000000⟩) =
      some (.ok ⟨[⟨⟨⟨2025,12,31⟩,23,0,0⟩,1767222000000⟩],true⟩) := by decide +kernel
  have not := returns.mp ⟨_,expanded⟩
  exact ⟨not,(same ⟨by decide,by decide,by decide⟩ (by decide)).not.mp not⟩

theorem hugeIntervalThrows : ¬ ∀ (text : String) (rule : RecurrenceRule), parse text = .ok rule → ∀ (dtstart : LocalDateTime)
    (zone : Zone) (window : Window), StartDay dtstart.toDate → LocalDateTime.Clock dtstart → RealInstant window.start →
      RealInstant window.stop → ∃ result, expand ⟨rule,dtstart,zone,window,maxOccurrences⟩ = some result := by
  intro all
  have throws : (parse "FREQ=DAILY;INTERVAL=99999999999").map (fun rule =>
      (expand ⟨rule,⟨⟨2026,1,10⟩,9,0,0⟩,.utc,⟨1767225600000,1769904000000⟩,maxOccurrences⟩).isNone) = .ok true := by
    decide +kernel
  cases parsed : parse "FREQ=DAILY;INTERVAL=99999999999" with
  | error e =>
    rw [parsed] at throws
    cases throws
  | ok rule =>
    obtain ⟨result,expanded⟩ := all _ rule parsed ⟨⟨2026,1,10⟩,9,0,0⟩ .utc ⟨1767225600000,1769904000000⟩
      ⟨by decide,by decide,by decide⟩ (by decide) (by decide) (by decide)
    rw [parsed,Except.map,expanded] at throws
    cases throws

end FamilyPlatform.Recurrence
