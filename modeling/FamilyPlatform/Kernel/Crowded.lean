import Mathlib.Algebra.Order.BigOperators.Group.List
import FamilyPlatform.Kernel.Search
import FamilyPlatform.Kernel.Throws

/-! When an expansion is refused as too dense, and a search with it: the first of its
windows that has an occurrence has more than the limit. -/
namespace FamilyPlatform.Recurrence
open ZonedTime Civil RecurrenceRule

section
variable {input : ExpandInput} {progress : Progress} {pass : Pass}

theorem visitLimited {date : Option LocalDate} (few : progress.occurrences.length ≤ input.limit)
    (found : visit input progress date = some pass) : pass.listed.length ≤ input.limit := by
  simp only [visit,bind,Option.bind_eq_some_iff] at found
  obtain ⟨d,rfl,found⟩ := found
  split at found
  · cases found
    exact few
  obtain ⟨instant,-,found⟩ := Option.bind_eq_some_iff.mp found
  split at found
  · cases found
    exact few
  split at found
  · cases found
    exact few
  split at found
  · cases found
    exact few
  split at found
  · cases found
    exact few
  split at found <;> cases found
  · exact Nat.zero_le _
  · exact Nat.not_lt.mp (by assumption)

theorem visitAllLimited {dates : List (Option LocalDate)} (few : progress.occurrences.length ≤ input.limit)
    (found : visitAll input progress dates = some pass) : pass.listed.length ≤ input.limit := by
  induction dates generalizing progress with
  | nil =>
    cases found
    exact few
  | cons date rest ih =>
    simp only [visitAll,bind,Option.bind_eq_some_iff] at found
    obtain ⟨first,visited,found⟩ := found
    have here := visitLimited few visited
    cases first with
    | next later => exact ih here found
    | returned result =>
      cases found
      exact here

theorem walkLimited {windowEnd : LocalDate} {fuel k : Nat} (few : progress.occurrences.length ≤ input.limit)
    (found : walk input windowEnd fuel k progress = some pass) : pass.listed.length ≤ input.limit := by
  induction fuel generalizing k progress with
  | zero =>
    cases found
    exact few
  | succ fuel ih =>
    unfold walk at found
    split at found
    · cases found
      exact few
    simp only [bind,Option.bind_eq_some_iff] at found
    obtain ⟨first,visited,found⟩ := found
    have here := visitAllLimited few visited
    cases first with
    | next later => exact ih here found
    | returned result =>
      cases found
      exact here

theorem expandLimited {e : Expansion} (ok : expand input = some (.ok e)) : e.occurrences.length ≤ input.limit := by
  simp only [expand,periods,bind,Option.bind_eq_some_iff] at ok
  obtain ⟨pass,⟨windowEnd,-,from_,-,found⟩,result⟩ := ok
  have limited : pass.listed.length ≤ input.limit := by
    cases from_ with
    | none =>
      cases found
      exact Nat.zero_le _
    | some first => exact walkLimited (Nat.zero_le _) found
  cases pass with
  | next progress =>
    cases result
    exact limited
  | returned result' =>
    cases result
    exact limited

structure Refuses (input : ExpandInput) (progress : Progress) (pre : List ExpandedOccurrence) (x : ExpandedOccurrence) :
    Prop where
  passed : Passed input progress.produced (pre ++ [x])
  inside : within input.window x = true
  full : input.limit < (progress.and input pre).occurrences.length + 1

theorem visitRefused {date : Option LocalDate} {error : DomainError}
    (found : visit input progress date = some (.returned (.error error))) : error = .recurrenceTooDense input.limit ∧
      ∃ x, occurrenceAt input date = some x ∧ Refuses input progress [] x := by
  simp only [visit,occurrenceAt,bind,Option.bind_eq_some_iff] at *
  obtain ⟨d,rfl,found⟩ := found
  simp only [Option.some.injEq,exists_eq_left']
  generalize atTime d input.dtstart.hour input.dtstart.minute input.dtstart.second = reading at *
  split at found
  · cases found
  rename_i since
  obtain ⟨instant,resolved,found⟩ := Option.bind_eq_some_iff.mp found
  simp only [if_neg since,resolved,Option.bind_some,Option.some.injEq,exists_eq_left']
  split at found
  · cases found
  split at found
  · cases found
  split at found
  · cases found
  split at found
  · cases found
  rename_i notUntil notCount notStopped notEarly
  split at found <;> cases found
  rename_i full
  refine ⟨rfl,⟨⟨fun y mem => ?_,.inr (by simpa using notCount)⟩,?_,?_⟩⟩
  · rw [List.mem_singleton.mp mem]
    exact ⟨by simpa using notUntil,Int.not_le.mp notStopped⟩
  · simp only [within,Bool.and_eq_true,decide_eq_true_eq]
    exact ⟨Int.not_lt.mp notEarly,Int.not_le.mp notStopped⟩
  · simpa [Progress.and] using full

theorem Refuses.behind {here pre : List ExpandedOccurrence} {x : ExpandedOccurrence}
    (stays : Stays input progress here) (refuses : Refuses input (progress.and input here) pre x) :
    Refuses input progress (here ++ pre) x := by
  refine ⟨?_,refuses.inside,?_⟩
  · rw [List.append_assoc]
    exact stays.passed.append refuses.passed
  · rw [← andAppend]
    exact refuses.full

theorem visitAllRefused {dates : List (Option LocalDate)} {error : DomainError}
    (found : visitAll input progress dates = some (.returned (.error error))) : error = .recurrenceTooDense input.limit ∧
      ∃ pre x post, dates.filterMap (occurrenceAt input) = pre ++ x :: post ∧ Refuses input progress pre x := by
  induction dates generalizing progress with
  | nil => cases found
  | cons date rest ih =>
    simp only [visitAll,bind,Option.bind_eq_some_iff] at found
    obtain ⟨first,visited,found⟩ := found
    rw [filterMapCons]
    cases first with
    | returned result =>
      cases found
      obtain ⟨is,x,there,refuses⟩ := visitRefused visited
      exact ⟨is,[],x,_,by rw [there]; rfl,refuses⟩
    | next later =>
      obtain ⟨stays,rfl⟩ := visitedStays visited
      obtain ⟨is,pre,x,post,rest_,refuses⟩ := ih found
      exact ⟨is,_,x,post,by rw [rest_,List.append_assoc],refuses.behind stays⟩

theorem walkRefused {windowEnd : LocalDate} {fuel k : Nat} {error : DomainError}
    (found : walk input windowEnd fuel k progress = some (.returned (.error error))) :
    error = .recurrenceTooDense input.limit ∧ ∃ length ≤ fuel, ∃ pre x post,
      (List.range' k length).flatMap (occurrencesIn input) = pre ++ x :: post ∧ Refuses input progress pre x := by
  induction fuel generalizing k progress with
  | zero => cases found
  | succ fuel ih =>
    unfold walk at found
    split at found
    · cases found
    simp only [bind,Option.bind_eq_some_iff] at found
    obtain ⟨first,visited,found⟩ := found
    cases first with
    | returned result =>
      cases found
      obtain ⟨is,pre,x,post,there,refuses⟩ := visitAllRefused visited
      exact ⟨is,1,by omega,pre,x,post,by simpa [occurrencesIn] using there,refuses⟩
    | next later =>
      obtain ⟨stays,rfl⟩ := visitAllNext visited
      obtain ⟨is,length,le,pre,x,post,rest,refuses⟩ := ih found
      refine ⟨is,length + 1,by omega,_,x,post,?_,refuses.behind stays⟩
      rw [List.range'_succ,List.flatMap_cons,rest,List.append_assoc,occurrencesIn]

end

theorem expandReads {input : ExpandInput} {result : Result Expansion} (found : expand input = some result) :
    RealInstant input.window.stop := by
  simp only [expand,periods,bind,Option.bind_eq_some_iff] at found
  obtain ⟨_,⟨windowEnd,read,-⟩,-⟩ := found
  obtain ⟨ms,clip,-⟩ := Option.map_eq_some_iff.mp read
  exact timeClipRange clip

/- An occurrence that a search comes to: with a COUNT, only in a period that an expansion visits. -/
structure Visited (input : NextOccurrenceInput) (x : ExpandedOccurrence) : Prop where
  produced : Produces input.rule input.dtstart input.zone x
  reached : input.rule.count.isSome = true →
    ∃ k < maxPeriods, some x.reading.toDate ∈ candidatesForPeriod input.rule input.dtstart.toDate k

def Crowded (input : NextOccurrenceInput) (window : Window) : Prop := ∃ xs : List ExpandedOccurrence, xs.Nodup ∧
  maxOccurrences < xs.length ∧ ∀ x ∈ xs, Visited input x ∧ within window x = true

/- The first window that has an occurrence is crowded, and inside the range of `Date`. -/
def FirstCrowded (input : NextOccurrenceInput) : List Window → Prop
  | [] => False
  | window :: rest => (RealInstant window.stop ∧ Crowded input window) ∨
    (∀ x, Visited input x → within window x = false) ∧ FirstCrowded input rest

section
variable {input : NextOccurrenceInput} (s : StartDay input.dtstart.toDate) (clock : LocalDateTime.Clock input.dtstart)
  {window : Window} {x : ExpandedOccurrence}
include s clock

theorem Visited.occurs (visited : Visited input x) : (∃ k, x ∈ occurrencesIn (input.of window) k) ∧
    (input.rule.count.isSome = true → ∃ k < maxPeriods, x ∈ occurrencesIn (input.of window) k) := by
  obtain ⟨k,occurs⟩ := @producesOccurs (input.of window) x visited.produced
  refine ⟨⟨k,occurs⟩,fun count => ?_⟩
  obtain ⟨j,less,candidate⟩ := visited.reached count
  exact ⟨j,less,(@occursIff (input.of window) s clock x k j occurs).mpr candidate⟩

theorem listedVisited (listed : Listed (input.of window) x)
    (reached : input.rule.count.isSome = true → ∃ k < maxPeriods, x ∈ occurrencesIn (input.of window) k) :
    Visited input x := by
  refine ⟨listed.produced rfl s clock,fun count => ?_⟩
  obtain ⟨k,less,occurs⟩ := reached count
  exact ⟨k,less,occursCandidate s clock occurs⟩

theorem refusedCrowded {error : DomainError} (found : expand (input.of window) = some (.error error)) :
    error = .recurrenceTooDense maxOccurrences ∧ Crowded input window := by
  simp only [expand,periods,bind,Option.bind_eq_some_iff] at found
  obtain ⟨pass,⟨windowEnd,-,from_,start,walked⟩,result⟩ := found
  cases pass with
  | next progress => cases result
  | returned result' =>
    cases result
    cases from_ with
    | none => cases walked
    | some first =>
      obtain ⟨is,length,le,pre,x,post,there,refuses⟩ := walkRefused walked
      have ordered := @seriesOrdered (input.of window) s clock first length
      have split_ : (List.range' first length).flatMap (occurrencesIn (input.of window)) = (pre ++ [x]) ++ post := by
        rw [there,List.append_assoc]
        rfl
      rw [split_] at ordered
      refine ⟨is,(pre ++ [x]).filter (within window),?_,?_,fun y mem => ?_⟩
      · exact (((List.pairwise_append.mp ordered).1.filter _).imp (fun precedes same =>
          absurd (same ▸ precedes.2) (lt_irrefl _)))
      · have full := refuses.full
        have inside : within window x = true := refuses.inside
        rw [List.filter_append,List.filter_cons_of_pos inside]
        simpa [Progress.and,NextOccurrenceInput.of] using full
      · obtain ⟨source,inside⟩ := List.mem_filter.mp mem
        refine ⟨listedVisited s clock ⟨inside,first,length,pre ++ [x],post,firstCounted start,split_,refuses.passed,source⟩
          (fun count => ?_),inside⟩
        obtain ⟨k,within_,occurs⟩ := List.mem_flatMap.mp (split_ ▸ List.mem_append_left post source)
        have := firstCounted start count
        exact ⟨k,by have := (List.mem_range'_1.mp within_).2; omega,occurs⟩

theorem expandedVisited {e : Expansion} (ok : expand (input.of window) = some (.ok e)) (mem : x ∈ e.occurrences) :
    Visited input x ∧ within window x = true :=
  have listed := expandListed ok mem
  ⟨listedVisited s clock listed (expandVisited ok mem),listed.inside⟩

theorem visitedExpanded {e : Expansion} (ok : expand (input.of window) = some (.ok e))
    (short : window.stop - window.start ≤ 4000 * msPerDay) (visited : Visited input x) (inside : within window x = true) :
    x ∈ e.occurrences :=
  expandComplete s clock ok short visited.produced inside (visited.occurs s clock).2

theorem throwsPassed (runs : RunsOver (input.of window)) : ∃ passed, Stays (input.of window) ⟨[],0⟩ passed ∧
    ∀ x, Visited input x → window.start ≤ x.instant → x ∈ passed := by
  obtain ⟨windowEnd,first,j,pre,date,post,-,starts,-,-,split_,not,stays⟩ := runs
  refine ⟨_,stays,fun x visited since => ?_⟩
  obtain ⟨k,occurs⟩ := (visited.occurs s clock).1
  refine occursBefore s clock split_ not ?_ occurs
  by_contra before
  have skipped := (skippedBefore s starts (Nat.lt_of_not_le before) (memOccurrencesIn s clock occurs)).2
  exact absurd (lt_of_le_of_lt since skipped) (lt_irrefl _)

theorem crowdedRefused (start : RealInstant window.start) (stop : RealInstant window.stop)
    (short : window.stop - window.start ≤ 4000 * msPerDay) (crowded : Crowded input window) :
    expand (input.of window) = some (.error (.recurrenceTooDense maxOccurrences)) := by
  obtain ⟨xs,distinct,many,all⟩ := crowded
  cases found : expand (input.of window) with
  | none =>
    obtain ⟨passed,stays,mem⟩ := throwsPassed s clock ((@expandThrows (input.of window) start stop).mp found)
    have sub : xs ⊆ passed.filter (within window) := by
      intro x source
      obtain ⟨visited,inside⟩ := all x source
      have since := inside
      simp only [within,Bool.and_eq_true,decide_eq_true_eq] at since
      exact List.mem_filter.mpr ⟨mem x visited since.1,inside⟩
    have few := (List.subperm_of_subset distinct sub).length_le
    rcases stays.limited with none_ | le
    · rw [show passed.filter (within window) = [] from none_] at few
      exact absurd (lt_of_lt_of_le many few) (Nat.not_lt_zero _)
    · rw [List.length_nil,Nat.zero_add] at le
      exact absurd (lt_of_lt_of_le many (le_trans few le)) (lt_irrefl _)
  | some result =>
    cases result with
    | error error => rw [(refusedCrowded s clock found).1]
    | ok e =>
      have sub : xs ⊆ e.occurrences := fun x source =>
        visitedExpanded s clock found short (all x source).1 (all x source).2
      have few := (List.subperm_of_subset distinct sub).length_le
      exact absurd (lt_of_lt_of_le many (le_trans few (expandLimited found))) (lt_irrefl _)

theorem laterReturns (start : RealInstant window.start) (stop : RealInstant window.stop) (visited : Visited input x)
    (forward : window.start ≤ window.stop) (later : window.stop ≤ x.instant) :
    ∃ result, expand (input.of window) = some result := by
  refine Option.ne_none_iff_exists'.mp (fun none_ => ?_)
  obtain ⟨passed,stays,mem⟩ := throwsPassed s clock ((@expandThrows (input.of window) start stop).mp none_)
  have before := (stays.passed.1 x (mem x visited (le_trans forward later))).2
  exact absurd (lt_of_lt_of_le before later) (lt_irrefl _)

omit s clock in
theorem firstCrowdedLater {steps spanDays : Nat} {start : Instant}
    (crowded : FirstCrowded input (windowsFrom steps start spanDays)) :
    ∃ x stop, Visited input x ∧ start ≤ x.instant ∧ start ≤ stop ∧ RealInstant stop := by
  induction steps generalizing start spanDays with
  | zero => cases crowded
  | succ steps ih =>
    have forward := @windowForward spanDays start
    rcases crowded with ⟨real,xs,-,many,all⟩ | ⟨-,later⟩
    · obtain ⟨x,mem⟩ := List.exists_mem_of_length_pos (lt_of_le_of_lt (Nat.zero_le _) many)
      obtain ⟨visited,inside⟩ := all x mem
      simp only [within,Bool.and_eq_true,decide_eq_true_eq] at inside
      exact ⟨x,_,visited,inside.1,forward,real⟩
    · obtain ⟨x,stop,visited,since,le,real⟩ := ih later
      exact ⟨x,stop,visited,le_trans forward since,le_trans forward le,real⟩

omit s clock in
theorem stepError {steps spanDays : Nat} {start : Instant} {error : DomainError} :
    stepWindows input (steps + 1) start spanDays = some (.error error) ↔
      expand (input.of ⟨start,start + spanDays * msPerDay⟩) = some (.error error) ∨
      ∃ e, expand (input.of ⟨start,start + spanDays * msPerDay⟩) = some (.ok e) ∧ e.occurrences = [] ∧
        e.exhausted = false ∧ stepWindows input steps (start + spanDays * msPerDay) (min (spanDays * 2) maxSpanDays) =
          some (.error error) := by
  cases found : expand (input.of ⟨start,start + spanDays * msPerDay⟩) with
  | none =>
    unfold NextOccurrenceInput.of at found
    simp [stepWindows,found]
  | some result =>
    cases result with
    | error other =>
      unfold NextOccurrenceInput.of at found
      simp [stepWindows,found]
    | ok e =>
      rw [stepExpanded found]
      cases listed : e.occurrences <;> cases exhausted : e.exhausted <;> simp [listed,exhausted]

theorem stepsTooDense {steps spanDays : Nat} {start : Instant} (few : spanDays ≤ maxSpanDays)
    (low : -(latest * msPerDay) ≤ start) {error : DomainError} : stepWindows input steps start spanDays = some (.error error) ↔
      error = .recurrenceTooDense maxOccurrences ∧ FirstCrowded input (windowsFrom steps start spanDays) := by
  induction steps generalizing start spanDays with
  | zero => exact ⟨fun found => (by cases found),fun both => both.2.elim⟩
  | succ steps ih =>
    have forward := @windowForward spanDays start
    have short := @windowShort spanDays start few
    have next := @ih (min (spanDays * 2) maxSpanDays) (start + spanDays * msPerDay) (min_le_right _ _) (le_trans low forward)
    have lowStop := le_trans low forward
    rw [stepError]
    constructor
    · rintro (refused | ⟨e,expanded,none_,-,rest⟩)
      · obtain ⟨is,crowded⟩ := refusedCrowded s clock refused
        exact ⟨is,.inl ⟨expandReads refused,crowded⟩⟩
      · obtain ⟨is,later⟩ := next.mp rest
        refine ⟨is,.inr ⟨fun x visited => ?_,later⟩⟩
        by_contra inside
        have mem := visitedExpanded s clock expanded short visited (by simpa using inside)
        rw [none_] at mem
        cases mem
    · rintro ⟨rfl,⟨real,crowded⟩ | ⟨empty,later⟩⟩
      · exact .inl (crowdedRefused s clock ⟨low,le_trans forward real.2⟩ real short crowded)
      · obtain ⟨y,stop,visited,since,le,real⟩ := firstCrowdedLater later
        have realStop : RealInstant (start + spanDays * msPerDay) := ⟨lowStop,le_trans le real.2⟩
        obtain ⟨result,expanded⟩ := @laterReturns _ s clock ⟨start,start + spanDays * msPerDay⟩ y
          ⟨low,le_trans forward realStop.2⟩ realStop visited forward since
        cases result with
        | error error =>
          obtain ⟨-,xs,-,many,all⟩ := refusedCrowded s clock expanded
          obtain ⟨x,mem⟩ := List.exists_mem_of_length_pos (lt_of_le_of_lt (Nat.zero_le _) many)
          obtain ⟨there,inside⟩ := all x mem
          rw [empty x there] at inside
          cases inside
        | ok e =>
          refine .inr ⟨e,expanded,List.eq_nil_iff_forall_not_mem.mpr (fun x mem => ?_),?_,next.mpr ⟨rfl,later⟩⟩
          · obtain ⟨there,inside⟩ := expandedVisited s clock expanded mem
            rw [empty x there] at inside
            cases inside
          · by_contra exhausted
            have before := exhaustedNone s clock expanded (by simpa using exhausted) (le_trans forward since) visited.produced
            exact absurd (lt_of_lt_of_le before since) (lt_irrefl _)

theorem nextTooDense (low : -(latest * msPerDay) ≤ input.after) {error : DomainError} :
    nextOccurrenceAfter input = some (.error error) ↔
      error = .recurrenceTooDense maxOccurrences ∧ FirstCrowded input input.windows :=
  stepsTooDense s clock (spanAtMost input.rule) (le_trans low (le_of_lt (Int.lt_succ _)))

end

theorem firstCrowdedBehind {input : NextOccurrenceInput} {steps more spanDays : Nat} {start : Instant}
    (empty : ∀ x, Visited input x → start + searchDays steps spanDays * msPerDay ≤ x.instant)
    (later : FirstCrowded input (windowsFrom more (start + searchDays steps spanDays * msPerDay)
      ((fun days => min (days * 2) maxSpanDays)^[steps] spanDays))) :
    FirstCrowded input (windowsFrom (steps + more) start spanDays) := by
  induction steps generalizing start spanDays with
  | zero =>
    simp only [searchDays,Nat.cast_zero,Int.zero_mul,Int.add_zero,Function.iterate_zero,id] at later
    rwa [Nat.zero_add]
  | succ steps ih =>
    have sum : (start + searchDays (steps + 1) spanDays * msPerDay : Int) =
        start + spanDays * msPerDay + searchDays steps (min (spanDays * 2) maxSpanDays) * msPerDay := by
      rw [searchDays]
      push_cast
      ring
    rw [sum,Function.iterate_succ_apply] at later
    rw [Nat.add_right_comm]
    refine .inr ⟨fun x visited => ?_,ih (fun x visited => sum ▸ empty x visited) later⟩
    have past := le_trans (@windowForward (searchDays steps (min (spanDays * 2) maxSpanDays)) _) (sum ▸ empty x visited)
    simp only [within,Bool.and_eq_false_iff,decide_eq_false_iff_not]
    exact .inr (not_lt_of_ge past)

structure EveryDay (rule : RecurrenceRule) : Prop where
  daily : rule.freq = .daily
  interval : rule.interval = .finite 1
  count : rule.count = none
  «until» : rule.until = none
  byDay : rule.byDay = []
  byMonthDay : rule.byMonthDay = []
  byMonth : rule.byMonth = []

instance : DecidablePred EveryDay := fun rule =>
  decidable_of_iff (rule.freq = .daily ∧ rule.interval = .finite 1 ∧ rule.count = none ∧ rule.until = none ∧
      rule.byDay = [] ∧ rule.byMonthDay = [] ∧ rule.byMonth = [])
    ⟨fun ⟨a,b,c,d,e,f,g⟩ => ⟨a,b,c,d,e,f,g⟩,fun every => ⟨every.daily,every.interval,every.count,every.until,every.byDay,
      every.byMonthDay,every.byMonth⟩⟩

section
variable {input : NextOccurrenceInput} {anchor : Instant}

theorem sinceAnchor (s : StartDay input.dtstart.toDate) (clock : LocalDateTime.Clock input.dtstart)
    (resolved : localToInstant input.zone input.dtstart = some anchor) {x : ExpandedOccurrence}
    (produced : Produces input.rule input.dtstart input.zone x) : anchor ≤ x.instant := by
  obtain ⟨k,occurs⟩ := @producesOccurs (input.of ⟨0,0⟩) _ produced
  have inK := memOccurrencesIn s clock occurs
  have since : input.dtstart.toDate.number ≤ x.reading.toDate.number := inK.since
  have low := s.low
  rcases Int.lt_or_eq_of_le since with less | same
  · exact le_of_lt (instantsIncrease s.real inK.inPeriod.real clock inK.clocked (by omega) less inK.clock.symm resolved
      inK.resolved)
  · have reading : x.reading = input.dtstart := by
      refine secondInjective inK.inPeriod.real inK.clocked s.real clock ?_
      have clocks : clockMs x.reading = clockMs input.dtstart := inK.clock
      simp only [secondOf,clockMs] at clocks ⊢
      omega
    have there := inK.resolved
    rw [reading] at there
    exact le_of_eq (Option.some.inj (resolved.symm.trans there))

def dayAfter (input : NextOccurrenceInput) (n : Nat) : LocalDateTime :=
  atTime (dateOf (input.dtstart.toDate.number + n)) input.dtstart.hour input.dtstart.minute input.dtstart.second

theorem dayAfterNumber (n : Nat) : (dayAfter input n).toDate.number = input.dtstart.toDate.number + n := numberOfDate _

theorem dayAfterSecond (n : Nat) : secondOf (dayAfter input n) = secondOf input.dtstart + n * 86400 := by
  have number := @dayAfterNumber input n
  unfold secondOf
  rw [number]
  simp only [dayAfter,atTime]
  omega

variable (s : StartDate input.dtstart.toDate) (clock : LocalDateTime.Clock input.dtstart) (every : EveryDay input.rule)
include s clock every

omit clock in
theorem everyDayCandidate {n : Nat} (room : input.dtstart.toDate.number + n ≤ latest) :
    some (dayAfter input n).toDate ∈ candidatesForPeriod input.rule input.dtstart.toDate n := by
  have supported : Supported input.rule := fun yearly => by cases every.daily.symm.trans yearly
  have inside : InRange input.rule input.dtstart.toDate n := by
    refine ⟨1,every.interval,?_⟩
    simp only [periodEnd,every.daily,every.byMonthDay,if_true,Nat.cast_one,Int.mul_one]
    exact room
  refine (memCandidates s supported inside).mpr ⟨dateOfReal _,⟨1,every.interval,?_⟩,?_⟩
  · simp only [periodIndex,every.daily,dayAfterNumber]
    omega
  · exact ⟨fun some_ => absurd every.byMonth some_,fun some_ => absurd every.byMonthDay some_,
      fun some_ => absurd every.byDay some_,fun _ _ => by simp only [LikeStart,every.daily]⟩

theorem everyDayVisited {n : Nat} (room : input.dtstart.toDate.number + n + 3 ≤ latest) :
    ∃ i, localToInstant input.zone (dayAfter input n) = some i ∧ Visited input ⟨dayAfter input n,i⟩ := by
  have low := s.day.low
  have number := @dayAfterNumber input n
  have away : Away (dayAfter input n).toDate.number := .inr (by unfold leapDay; omega)
  obtain ⟨i,resolved⟩ := @Anywhere.localToInstantInside _ (dayAfter input n) input.zone.steady.apart (dateOfReal _)
    clock away (by unfold latest; omega) (by omega)
  have since : input.dtstart.toDate.number ≤ (dayAfter input n).toDate.number := by omega
  have occurs := @candidateOccurs (input.of ⟨i,i + 1⟩) s.day clock n _
    (everyDayCandidate s every (by omega)) since i resolved
  refine ⟨i,resolved,⟨⟨i,i + 1⟩,n + 1,?_⟩,fun count => by rw [every.count] at count; cases count⟩
  have all : ∀ x : ExpandedOccurrence, (!beyondUntil input.rule x.reading x.instant) = true := by
    intro x
    simp only [beyondUntil,every.until,Bool.not_false]
  simp only [plain,upToCount,every.count]
  rw [List.takeWhile_eq_self_iff.mpr (fun x _ => all x)]
  refine List.mem_filter.mpr ⟨List.mem_flatMap.mpr ⟨n,List.mem_range.mpr (Nat.lt_succ_self n),occurs⟩,?_⟩
  simp only [within,Bool.and_eq_true,decide_eq_true_eq]
  exact ⟨le_refl i,Int.lt_succ i⟩

theorem everyDayInside {window : Window} {many : Nat} (resolved : localToInstant input.zone input.dtstart = some anchor)
    (room : input.dtstart.toDate.number + many + 2 ≤ latest) (since : window.start ≤ anchor)
    (till : anchor + (many + 1 : Nat) * msPerDay ≤ window.stop) :
    ∃ xs : List ExpandedOccurrence, xs.Nodup ∧ xs.length = many ∧
      ∀ x ∈ xs, Visited input x ∧ within window x = true := by
  have low := s.day.low
  have days : ∀ n < many, ∃ i, localToInstant input.zone (dayAfter input n) = some i ∧
      Visited input ⟨dayAfter input n,i⟩ := fun n less => everyDayVisited s clock every (by omega)
  choose! moment there using days
  refine ⟨(List.range many).map (fun n => ⟨dayAfter input n,moment n⟩),?_,by rw [List.length_map,List.length_range],
    fun x mem => ?_⟩
  · refine List.Nodup.map_on (fun n _ m _ same => ?_) List.nodup_range
    have number := congrArg (fun x : ExpandedOccurrence => x.reading.toDate.number) same
    simp only [dayAfterNumber] at number
    omega
  · obtain ⟨n,source,rfl⟩ := List.mem_map.mp mem
    have less := List.mem_range.mp source
    obtain ⟨reads,visited⟩ := there n less
    have number := @dayAfterNumber input n
    have first := sinceAnchor s.day clock resolved visited.produced
    have isAnchor := localToInstantSource s.1 clock (by omega) resolved
    have is := @localToInstantSource _ (dayAfter input n) _ (dateOfReal _) clock (by omega) reads
    have boundAnchor := input.zone.steady.apart.resolveBounds (secondOf input.dtstart)
    have bound := input.zone.steady.apart.resolveBounds (secondOf (dayAfter input n))
    rw [dayAfterSecond] at bound is
    simp only [within,Bool.and_eq_true,decide_eq_true_eq]
    refine ⟨visited,le_trans since first,lt_of_lt_of_le ?_ till⟩
    rw [is,isAnchor]
    change (_ : Int) < _
    unfold msPerDay
    push_cast
    omega

/-- A search in a rule of every day whose anchor lies from 2046 to 3092 days after the instant is refused: none of its
first ten windows has an occurrence, and the next one has more than the limit. -/
theorem everyDayTooDense (real : RealInstant (input.after + 1 + 4094 * msPerDay))
    (resolved : localToInstant input.zone input.dtstart = some anchor)
    (room : input.dtstart.toDate.number + (maxOccurrences + 1 : Nat) + 2 ≤ latest)
    (later : input.after + 1 + 2046 * msPerDay ≤ anchor)
    (earlier : anchor ≤ input.after + 1 + 3092 * msPerDay) : FirstCrowded input input.windows := by
  have span : initialSpanDays input.rule = 2 := by
    simp only [initialSpanDays,every.daily,every.interval]
    decide
  have far : searchDays 10 2 = 2046 := by decide
  have next : (fun days => min (days * 2) maxSpanDays)^[10] 2 = 2048 := by decide
  unfold NextOccurrenceInput.windows
  rw [span,show maxSteps = 10 + (53 + 1) from rfl]
  refine firstCrowdedBehind (fun x visited => ?_) ?_
  · rw [far]
    exact le_trans later (sinceAnchor s.day clock resolved visited.produced)
  · rw [far,next]
    have stop : (input.after + 1 + (2046 : Nat) * msPerDay + (2048 : Nat) * msPerDay : Int) =
        input.after + 1 + 4094 * msPerDay := by ring
    have sum : (input.after + 1 + 3092 * msPerDay + (maxOccurrences + 1 + 1 : Nat) * msPerDay : Int) =
        input.after + 1 + 4094 * msPerDay := by
      unfold maxOccurrences
      push_cast
      ring
    have till := le_of_le_of_eq (Int.add_le_add_right earlier _) (sum.trans stop.symm)
    obtain ⟨xs,distinct,length,all⟩ := @everyDayInside _ _ s clock every ⟨_,_⟩ _ resolved room later till
    exact .inl ⟨stop ▸ real,xs,distinct,length ▸ Nat.lt_succ_self maxOccurrences,all⟩

end

theorem dailyOne {rule : RecurrenceRule} {start : LocalDate} {k : Nat} (daily : rule.freq = .daily) :
    (candidatesForPeriod rule start k).length ≤ 1 := by
  have few : (periodDates rule start k).length ≤ 1 := by
    simp only [periodDates,daily,dailyCandidates]
    exact List.length_filter_le _ _
  unfold candidatesForPeriod
  rw [List.length_map,List.length_insertionSort]
  generalize periodDates rule start k = dates at few
  rcases dates with _ | ⟨date,_ | ⟨second,rest⟩⟩
  · exact Nat.zero_le _
  · exact le_refl 1
  · simp at few

theorem countedProduces {input : ExpandInput} {n count : Nat} {x : ExpandedOccurrence} (daily : input.rule.freq = .daily)
    (counts : input.rule.count = some (.finite count)) (endless : input.rule.until = none) (few : n < count)
    (occurs : x ∈ occurrencesIn input n) : Produces input.rule input.dtstart input.zone x := by
  refine ⟨⟨x.instant,x.instant + 1⟩,n + 1,?_⟩
  have each : ∀ k, (occurrencesIn input k).length ≤ 1 := fun k =>
    le_trans (List.length_filterMap_le _ _) (dailyOne daily)
  have short : ((List.range (n + 1)).flatMap (occurrencesIn input)).length ≤ count := by
    rw [List.length_flatMap]
    refine le_trans (List.sum_le_card_nsmul _ 1 (fun length mem => ?_)) (by simpa using Nat.succ_le_of_lt few)
    obtain ⟨k,-,rfl⟩ := List.mem_map.mp mem
    exact each k
  have all : ∀ x : ExpandedOccurrence, (!beyondUntil input.rule x.reading x.instant) = true := by
    intro x
    simp only [beyondUntil,endless,Bool.not_false]
  simp only [plain,upToCount,counts]
  refine List.mem_filter.mpr ⟨?_,?_⟩
  · rw [List.takeWhile_eq_self_iff.mpr (fun x _ => all x)]
    refine (List.take_of_length_le short).symm ▸ ?_
    exact List.mem_flatMap.mpr ⟨n,List.mem_range.mpr (Nat.lt_succ_self n),occurs⟩
  · simp only [within,Bool.and_eq_true,decide_eq_true_eq]
    exact ⟨le_refl _,Int.lt_succ _⟩

section
variable {input : NextOccurrenceInput} {window : Window} (s : StartDay input.dtstart.toDate)
  (clock : LocalDateTime.Clock input.dtstart)
include s clock

theorem countedBefore (daily : input.rule.freq = .daily) (single : input.rule.interval = .finite 1)
    (count : input.rule.count.isSome = true) {l : LocalDateTime}
    (read : instantToLocal input.zone window.start = some l)
    (late : input.dtstart.toDate.number + maxPeriods + 3 ≤ l.toDate.number) {x : ExpandedOccurrence}
    (visited : Visited input x) : x.instant < window.start := by
  obtain ⟨j,few,mem⟩ := visited.reached count
  obtain ⟨i,occurs⟩ := (@Visited.occurs _ s clock window _ visited).1
  have inK := memOccurrencesIn s clock occurs
  obtain ⟨interval,finite,period⟩ := (memCandidatesPeriod s mem).period
  rw [single] at finite
  cases finite
  simp only [periodIndex,daily] at period
  exact resolvedBefore inK.inPeriod.real inK.clocked inK.inPeriod.low inK.resolved read (by omega)

theorem countedUnreached (start : RealInstant window.start) (stop : RealInstant window.stop)
    (before : ∀ x, Visited input x → x.instant < window.start) (count : input.rule.count.isSome = true) {k : Nat}
    (more : maxPeriods ≤ k) {date : Option LocalDate}
    (candidate : date ∈ candidatesForPeriod input.rule input.dtstart.toDate k)
    (resolves : Resolves (input.of window) date) : ∃ e, expand (input.of window) = some (.ok e) ∧ e.occurrences = [] := by
  have none_ : ∀ x, Visited input x → ¬ within window x = true := by
    intro x visited inside
    simp only [within,Bool.and_eq_true,decide_eq_true_eq] at inside
    exact absurd (lt_of_le_of_lt inside.1 (before x visited)) (lt_irrefl _)
  cases found : expand (input.of window) with
  | none =>
    obtain ⟨_,first,j,pre,date',post,-,from_,few,-,split_,not,-⟩ := (@expandThrows (input.of window) start stop).mp found
    rw [firstPeriod,if_pos (show (input.of window).rule.count.isSome = true from count)] at from_
    cases from_
    have mem : date' ∈ candidatesForPeriod input.rule input.dtstart.toDate (0 + j) := by
      rw [show candidatesForPeriod input.rule input.dtstart.toDate (0 + j) = pre ++ date' :: post from split_]
      simp
    exact absurd resolves (@notResolvesLater (input.of window) s clock _ _ _ _ mem not candidate (by omega))
  | some result =>
    cases result with
    | error error =>
      obtain ⟨-,xs,-,many,all⟩ := refusedCrowded s clock found
      obtain ⟨x,mem⟩ := List.exists_mem_of_length_pos (lt_of_le_of_lt (Nat.zero_le _) many)
      exact absurd (all x mem).2 (none_ x (all x mem).1)
    | ok e =>
      refine ⟨e,rfl,List.eq_nil_iff_forall_not_mem.mpr (fun x mem => ?_)⟩
      obtain ⟨visited,inside⟩ := expandedVisited s clock found mem
      exact none_ x visited inside

end

end FamilyPlatform.Recurrence
