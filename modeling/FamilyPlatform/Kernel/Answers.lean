import FamilyPlatform.Kernel.Crowded

/-! What a search answers, said of the rule: that an occurrence is the first after an
instant, or that there is none. -/
namespace FamilyPlatform.Recurrence
open ZonedTime Civil RecurrenceRule

/- A period that is visited has an occurrence beyond UNTIL or COUNT. None up to it begins after
the end of the window, and none of the occurrences before that one stops the walk. -/
def Spent (input : ExpandInput) : Prop := ∃ windowEnd first j pre z post,
  instantToLocal input.zone input.window.stop = some windowEnd ∧ firstPeriod input = some (some first) ∧ j < maxPeriods ∧
    (∀ i ≤ j, pastWindow input windowEnd.toDate (first + i) = false) ∧ occurrencesIn input (first + j) = pre ++ z :: post ∧
    Stays input ⟨[],0⟩ ((List.range' first j).flatMap (occurrencesIn input) ++ pre) ∧
    Beyond input ((List.range' first j).flatMap (occurrencesIn input) ++ pre).length z

section
variable {input : ExpandInput} {progress : Progress} {date : Option LocalDate} {dates : List (Option LocalDate)}
  {windowEnd : LocalDate} {fuel k j : Nat}

theorem visitSpent {z : ExpandedOccurrence} (there : occurrenceAt input date = some z)
    (beyond : Beyond input progress.produced z) :
    visit input progress date = some (.returned (.ok ⟨progress.occurrences,true⟩)) := by
  cases date with
  | none => cases there
  | some d =>
    simp only [occurrenceAt,visit,bind,Option.bind_some] at *
    generalize atTime d input.dtstart.hour input.dtstart.minute input.dtstart.second = reading at *
    split at there
    · cases there
    rename_i since
    obtain ⟨instant,resolved,is⟩ := Option.bind_eq_some_iff.mp there
    cases is
    rw [if_neg since,resolved,Option.bind_some]
    rcases beyond with beyond | beyond
    · exact if_pos beyond
    · simp only [beyond,if_true,ite_self]

theorem visitAllSpent {pre post : List ExpandedOccurrence} {z : ExpandedOccurrence}
    (is : dates.filterMap (occurrenceAt input) = pre ++ z :: post) (stays : Stays input progress pre)
    (beyond : Beyond input (progress.produced + pre.length) z) :
    visitAll input progress dates = none ∨
      ∃ e, visitAll input progress dates = some (.returned (.ok e)) ∧ e.exhausted = true := by
  induction dates generalizing progress pre with
  | nil => simp at is
  | cons date rest ih =>
    by_cases resolves : Resolves input date
    swap
    · exact .inl (by simp only [visitAll,visitThrows.mpr resolves,bind,Option.bind_none])
    simp only [visitAll,bind]
    cases there : occurrenceAt input date with
    | none =>
      rw [filterMapCons,there,Option.toList_none,List.nil_append] at is
      rcases @visitStays _ progress _ resolves with ⟨-,visited⟩ | ⟨not,-⟩
      · rw [there,Option.toList_none] at visited
        rw [visited,Option.bind_some]
        exact @ih (progress.and input []) pre is (staysAppend.mp (List.nil_append pre ▸ stays)).2 beyond
      · rw [there,Option.toList_none] at not
        exact absurd staysNone not
    | some x =>
      rw [filterMapCons,there] at is
      cases pre with
      | nil =>
        cases (List.cons.inj is).1
        rw [visitSpent there beyond,Option.bind_some]
        exact .inr ⟨_,rfl,rfl⟩
      | cons first pre =>
        obtain ⟨rfl,others⟩ := List.cons.inj is
        obtain ⟨here,later⟩ := staysAppend.mp (show Stays input progress ([x] ++ pre) from stays)
        rcases @visitStays _ progress _ resolves with ⟨-,visited⟩ | ⟨not,-⟩
        · rw [there] at visited
          rw [visited,Option.bind_some]
          refine ih others later ?_
          have length : progress.produced + (x :: pre).length = (progress.and input [x]).produced + pre.length := by
            simp only [Progress.and,List.length_cons,List.length_nil]
            omega
          exact length ▸ beyond
        · rw [there] at not
          exact absurd here not

theorem walkGoes (le : j ≤ fuel) (going : ∀ i < j, pastWindow input windowEnd (k + i) = false)
    (stays : Stays input progress ((List.range' k j).flatMap (occurrencesIn input))) :
    walk input windowEnd fuel k progress = none ∨ walk input windowEnd fuel k progress =
      walk input windowEnd (fuel - j) (k + j) (progress.and input ((List.range' k j).flatMap (occurrencesIn input))) := by
  induction j generalizing fuel k progress with
  | zero => exact .inr (by simp [Progress.and])
  | succ j ih =>
    obtain ⟨fuel,rfl⟩ := Nat.exists_eq_add_of_lt (Nat.lt_of_lt_of_le (Nat.succ_pos j) le)
    rw [Nat.zero_add] at *
    rw [List.range'_succ,List.flatMap_cons,staysAppend] at stays
    have here : pastWindow input windowEnd k = false := going 0 (Nat.succ_pos j)
    rw [List.range'_succ,List.flatMap_cons,← andAppend,walk,here]
    simp only [Bool.false_eq_true,if_false,bind]
    rcases visitAllGoes stays.1 with none_ | next
    · exact .inl (by rw [none_,Option.bind_none])
    · rw [next,Option.bind_some]
      have rest := @ih _ fuel (k + 1) (by omega) (fun i less => by
        rw [Nat.add_right_comm k 1 i]
        exact going (i + 1) (by omega)) stays.2
      rw [show fuel + 1 - (j + 1) = fuel - j by omega,show k + (j + 1) = k + 1 + j by omega]
      exact rest

theorem visitAllEnds {e : Expansion} (found : visitAll input progress dates = some (.returned (.ok e)))
    (exhausted : e.exhausted = true) : ∃ pre z post, dates.filterMap (occurrenceAt input) = pre ++ z :: post ∧
      Stays input progress pre ∧ Beyond input (progress.produced + pre.length) z := by
  induction dates generalizing progress with
  | nil => cases found
  | cons date rest ih =>
    simp only [visitAll,bind,Option.bind_eq_some_iff] at found
    obtain ⟨first,visited,found⟩ := found
    rw [filterMapCons]
    cases first with
    | returned result =>
      cases found
      obtain ⟨z,is,beyond⟩ := visitBeyond visited exhausted
      exact ⟨[],z,_,by rw [is]; rfl,staysNone,beyond⟩
    | next later =>
      obtain ⟨stays,rfl⟩ := visitedStays visited
      obtain ⟨pre,z,post,is,stays',beyond⟩ := ih found
      refine ⟨_,z,post,by rw [is,List.append_assoc],staysAppend.mpr ⟨stays,stays'⟩,?_⟩
      rw [List.length_append,← Nat.add_assoc]
      exact beyond

theorem walkEnds {e : Expansion} (found : walk input windowEnd fuel k progress = some (.returned (.ok e)))
    (exhausted : e.exhausted = true) : ∃ j < fuel, (∀ i ≤ j, pastWindow input windowEnd (k + i) = false) ∧
      ∃ pre z post, occurrencesIn input (k + j) = pre ++ z :: post ∧
        Stays input progress ((List.range' k j).flatMap (occurrencesIn input) ++ pre) ∧
        Beyond input (progress.produced + ((List.range' k j).flatMap (occurrencesIn input) ++ pre).length) z := by
  induction fuel generalizing k progress with
  | zero => cases found
  | succ fuel ih =>
    unfold walk at found
    split at found
    · cases found
      cases exhausted
    rename_i past
    simp only [bind,Option.bind_eq_some_iff] at found
    obtain ⟨first,visited,found⟩ := found
    cases first with
    | returned result =>
      cases found
      obtain ⟨pre,z,post,is,stays,beyond⟩ := visitAllEnds visited exhausted
      refine ⟨0,Nat.succ_pos _,fun i le => ?_,pre,z,post,is,stays,beyond⟩
      obtain rfl : i = 0 := by omega
      simpa using past
    | next later =>
      obtain ⟨stays,rfl⟩ := visitAllNext visited
      obtain ⟨j,less,going,pre,z,post,is,stays',beyond⟩ := ih found
      refine ⟨j + 1,by omega,fun i le => ?_,pre,z,post,?_,?_,?_⟩
      · cases i with
        | zero => simpa using past
        | succ i =>
          rw [show k + (i + 1) = k + 1 + i by omega]
          exact going i (by omega)
      · rw [show k + (j + 1) = k + 1 + j by omega]
        exact is
      · rw [List.range'_succ,List.flatMap_cons,List.append_assoc]
        exact staysAppend.mpr ⟨stays,stays'⟩
      · rw [List.range'_succ,List.flatMap_cons,List.append_assoc,List.length_append,← Nat.add_assoc]
        exact beyond

theorem expandEnds {e : Expansion} (ok : expand input = some (.ok e)) (exhausted : e.exhausted = true) : Spent input := by
  simp only [expand,periods,bind,Option.bind_eq_some_iff] at ok
  obtain ⟨pass,⟨windowEnd,read,from_,start,walked⟩,result⟩ := ok
  cases pass with
  | next progress =>
    cases result
    cases exhausted
  | returned result' =>
    cases result
    cases from_ with
    | none => cases walked
    | some first =>
      obtain ⟨j,less,going,pre,z,post,is,stays,beyond⟩ := walkEnds walked exhausted
      exact ⟨windowEnd,first,j,pre,z,post,read,start,less,going,is,stays,by simpa using beyond⟩

theorem expandSpent (returns : ∃ result, expand input = some result) (spent : Spent input) :
    ∃ e, expand input = some (.ok e) ∧ e.exhausted = true := by
  obtain ⟨result,returns⟩ := returns
  obtain ⟨windowEnd,first,j,pre,z,post,read,start,less,going,is,stays,beyond⟩ := spent
  obtain ⟨before,behind⟩ := staysAppend.mp stays
  have not : walk input windowEnd.toDate maxPeriods first ⟨[],0⟩ ≠ none := by
    intro none_
    simp only [expand,periods,bind,read,start,none_,Option.bind_some,Option.bind_none] at returns
    cases returns
  have walked := (walkGoes (le_of_lt less) (fun i lt => going i (le_of_lt lt)) before).resolve_left not
  obtain ⟨fuel,enough⟩ : ∃ fuel, maxPeriods - j = fuel + 1 := ⟨maxPeriods - j - 1,by omega⟩
  rw [enough,walk,going j le_rfl] at walked
  simp only [Bool.false_eq_true,if_false,bind] at walked
  rw [List.length_append] at beyond
  rcases @visitAllSpent _ (Progress.and input ⟨[],0⟩ ((List.range' first j).flatMap (occurrencesIn input))) _ pre post z is
      behind (by simpa only [Progress.and,Nat.zero_add] using beyond) with none_ | ⟨e,visited,exhausted⟩
  · rw [none_,Option.bind_none] at walked
    exact absurd walked not
  · rw [visited,Option.bind_some] at walked
    refine ⟨e,?_,exhausted⟩
    simp only [expand,periods,bind,read,start,Option.bind_some]
    rw [walked]
    rfl

end

/- The window of a search that has the occurrence: not crowded, inside the range of `Date`, and no
walk over it throws. -/
structure Finds (input : NextOccurrenceInput) (x : ExpandedOccurrence) (window : Window) : Prop where
  inside : within window x = true
  real : RealInstant window.stop
  few : ¬ Crowded input window
  returns : ¬ Unstopped (input.of window)

/- A search for nothing: so are all windows, up to one in which UNTIL or COUNT ends the rule. -/
def Finishes (input : NextOccurrenceInput) : List Window → Prop
  | [] => True
  | window :: rest => (RealInstant window.stop ∧ ¬ Unstopped (input.of window)) ∧
    (Spent (input.of window) ∨ Finishes input rest)

section
variable {input : NextOccurrenceInput} (s : StartDay input.dtstart.toDate) (clock : LocalDateTime.Clock input.dtstart)
  {window : Window} {x : ExpandedOccurrence} {steps spanDays : Nat} {start : Instant}

theorem windowsLater (mem : window ∈ windowsFrom steps start spanDays) : start ≤ window.start ∧ window.start ≤ window.stop := by
  induction steps generalizing start spanDays with
  | zero => cases mem
  | succ steps ih =>
    have forward := @windowForward spanDays start
    rcases List.mem_cons.mp mem with rfl | later
    · exact ⟨le_rfl,forward⟩
    · exact ⟨le_trans forward (ih later).1,(ih later).2⟩

include s clock

theorem windowExpands (low : -(latest * msPerDay) ≤ window.start) (forward : window.start ≤ window.stop)
    (short : window.stop - window.start ≤ 4000 * msPerDay) : Expands (input.of window) ↔
      RealInstant window.stop ∧ ¬ Crowded input window ∧ ¬ Unstopped (input.of window) := by
  constructor
  · rintro ⟨e,expanded⟩
    have real := expandReads expanded
    have start : RealInstant window.start := ⟨low,le_trans forward real.2⟩
    refine ⟨real,fun crowded => ?_,fun unstopped => ?_⟩
    · cases expanded.symm.trans (crowdedRefused s clock start real short crowded)
    · have throws := (@expandThrows (input.of window) start real).mpr ((runsOverUnstopped s clock).mpr unstopped)
      cases expanded.symm.trans throws
  · rintro ⟨real,few,returns⟩
    have start : RealInstant window.start := ⟨low,le_trans forward real.2⟩
    cases found : expand (input.of window) with
    | none => exact absurd ((runsOverUnstopped s clock).mp ((@expandThrows (input.of window) start real).mp found)) returns
    | some result =>
      cases result with
      | error error => exact absurd (refusedCrowded s clock found).2 few
      | ok e => exact ⟨e,found⟩

theorem reachesFinds (first : FirstAfter input x) (visited : Visited input x) (later : input.after < start)
    (since : start ≤ x.instant) (few : spanDays ≤ maxSpanDays) (low : -(latest * msPerDay) ≤ start) :
    Reaches input x (windowsFrom steps start spanDays) ↔ ∃ window ∈ windowsFrom steps start spanDays, Finds input x window := by
  induction steps generalizing start spanDays with
  | zero => exact ⟨False.elim,fun ⟨_,mem,_⟩ => (by cases mem)⟩
  | succ steps ih =>
    have forward := @windowForward spanDays start
    have short := @windowShort spanDays start few
    have expands := @windowExpands _ s clock ⟨start,start + spanDays * msPerDay⟩ low forward short
    have next := fun since => @ih (min (spanDays * 2) maxSpanDays) (start + spanDays * msPerDay) (lt_of_lt_of_le later forward)
      since (min_le_right _ _) (le_trans low forward)
    constructor
    · rintro ⟨here,reaches⟩
      by_cases inside : x.instant < start + spanDays * msPerDay
      · obtain ⟨real,uncrowded,returns⟩ := expands.mp here
        refine ⟨_,List.mem_cons_self,?_,real,uncrowded,returns⟩
        simp only [within,Bool.and_eq_true,decide_eq_true_eq]
        exact ⟨since,inside⟩
      · obtain ⟨window,mem,finds⟩ := (next (Int.not_lt.mp inside)).mp (reaches.resolve_left inside)
        exact ⟨window,List.mem_cons_of_mem _ mem,finds⟩
    · rintro ⟨window,mem,finds⟩
      have inside := finds.inside
      simp only [within,Bool.and_eq_true,decide_eq_true_eq] at inside
      rcases List.mem_cons.mp mem with rfl | mem
      · exact ⟨expands.mpr ⟨finds.real,finds.few,finds.returns⟩,.inl inside.2⟩
      · -- An earlier window returns, as the occurrence is after it, and has none.
        obtain ⟨after,on⟩ := windowsLater mem
        have before : start + spanDays * msPerDay ≤ x.instant := le_trans after inside.1
        have real : RealInstant (start + spanDays * msPerDay) :=
          ⟨le_trans low forward,le_trans (le_trans after on) finds.real.2⟩
        have realStart : RealInstant start := ⟨low,le_trans forward real.2⟩
        obtain ⟨result,expanded⟩ := @laterReturns _ s clock ⟨start,start + spanDays * msPerDay⟩ _ realStart real visited
          forward before
        refine ⟨?_,.inr ((next before).mpr ⟨window,mem,finds⟩)⟩
        cases result with
        | ok e => exact ⟨e,expanded⟩
        | error error =>
          obtain ⟨-,xs,-,many,all⟩ := refusedCrowded s clock expanded
          obtain ⟨y,source⟩ := List.exists_mem_of_length_pos (lt_of_le_of_lt (Nat.zero_le _) many)
          obtain ⟨there,inside⟩ := all y source
          simp only [within,Bool.and_eq_true,decide_eq_true_eq] at inside
          have least := first.least y there.produced (lt_of_lt_of_le later inside.1)
          exact absurd (lt_of_lt_of_le inside.2 (le_trans before least)) (lt_irrefl _)

theorem runsFinishes (none_ : ∀ y, Produces input.rule input.dtstart input.zone y → y.instant ≤ input.after)
    (later : input.after < start) (few : spanDays ≤ maxSpanDays) (low : -(latest * msPerDay) ≤ start) :
    RunsOut input (windowsFrom steps start spanDays) ↔ Finishes input (windowsFrom steps start spanDays) := by
  induction steps generalizing start spanDays with
  | zero => exact Iff.rfl
  | succ steps ih =>
    have forward := @windowForward spanDays start
    have short := @windowShort spanDays start few
    have expands := @windowExpands _ s clock ⟨start,start + spanDays * msPerDay⟩ low forward short
    have next := @ih (min (spanDays * 2) maxSpanDays) (start + spanDays * msPerDay) (lt_of_lt_of_le later forward)
      (min_le_right _ _) (le_trans low forward)
    have uncrowded : ¬ Crowded input ⟨start,start + spanDays * msPerDay⟩ := by
      rintro ⟨xs,-,many,all⟩
      obtain ⟨y,source⟩ := List.exists_mem_of_length_pos (lt_of_le_of_lt (Nat.zero_le _) many)
      obtain ⟨there,inside⟩ := all y source
      simp only [within,Bool.and_eq_true,decide_eq_true_eq] at inside
      exact absurd (lt_of_lt_of_le later (le_trans inside.1 (none_ y there.produced))) (lt_irrefl _)
    constructor
    · rintro ⟨e,expanded,rest⟩
      obtain ⟨real,-,returns⟩ := expands.mp ⟨e,expanded⟩
      exact ⟨⟨real,returns⟩,rest.imp (expandEnds expanded) next.mp⟩
    · rintro ⟨⟨real,returns⟩,rest⟩
      obtain ⟨e,expanded⟩ := expands.mpr ⟨real,uncrowded,returns⟩
      refine ⟨e,expanded,rest.imp (fun spent => ?_) next.mpr⟩
      obtain ⟨e',expanded',exhausted⟩ := expandSpent ⟨_,expanded⟩ spent
      cases expanded.symm.trans expanded'
      exact exhausted

theorem nextFound (first : FirstAfter input x) (low : -(latest * msPerDay) ≤ input.after) :
    nextOccurrenceAfter input = some (.ok (some x)) ↔ Visited input x ∧ ∃ window ∈ input.windows, Finds input x window := by
  have finds := fun visited => @reachesFinds _ s clock x maxSteps _ _ first visited (Int.lt_succ _)
    (Int.add_one_le_of_lt first.after) (spanAtMost input.rule) (le_trans low (le_of_lt (Int.lt_succ _)))
  rw [nextFirst s clock first]
  constructor
  · rintro ⟨reaches,reached⟩
    exact ⟨⟨first.produced,reached⟩,(finds ⟨first.produced,reached⟩).mp reaches⟩
  · rintro ⟨visited,found⟩
    exact ⟨(finds visited).mpr found,visited.reached⟩

theorem nextMissing (none_ : ∀ y, Produces input.rule input.dtstart input.zone y → y.instant ≤ input.after)
    (low : -(latest * msPerDay) ≤ input.after) :
    nextOccurrenceAfter input = some (.ok none) ↔ Finishes input input.windows := by
  rw [nextNone s clock none_]
  exact runsFinishes s clock none_ (Int.lt_succ _) (spanAtMost input.rule) (le_trans low (le_of_lt (Int.lt_succ _)))

end

end FamilyPlatform.Recurrence
