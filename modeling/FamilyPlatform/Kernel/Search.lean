import Mathlib.Data.Int.LeastGreatest
import FamilyPlatform.Kernel.Complete

/-! When the search for the first occurrence after an instant comes to it: in one of its
windows, none of them failing, and with a COUNT in a period that is visited. -/
namespace FamilyPlatform.Recurrence
open ZonedTime Civil RecurrenceRule

def windowsFrom : (steps : Nat) → Instant → Nat → List Window
  | 0, _, _ => []
  | steps + 1, start, spanDays =>
    let stop := start + spanDays * msPerDay
    ⟨start,stop⟩ :: windowsFrom steps stop (min (spanDays * 2) maxSpanDays)

namespace NextOccurrenceInput

def windows (input : NextOccurrenceInput) : List Window :=
  windowsFrom maxSteps (input.after + 1) (initialSpanDays input.rule)

def of (input : NextOccurrenceInput) (window : Window) : ExpandInput :=
  ⟨input.rule,input.dtstart,input.zone,window,maxOccurrences⟩

end NextOccurrenceInput

def Expands (input : ExpandInput) : Prop := ∃ e, expand input = some (.ok e)

def Reaches (input : NextOccurrenceInput) (x : ExpandedOccurrence) : List Window → Prop
  | [] => False
  | window :: rest => Expands (input.of window) ∧ (x.instant < window.stop ∨ Reaches input x rest)

def RunsOut (input : NextOccurrenceInput) : List Window → Prop
  | [] => True
  | window :: rest => ∃ e, expand (input.of window) = some (.ok e) ∧ (e.exhausted = true ∨ RunsOut input rest)

structure FirstAfter (input : NextOccurrenceInput) (x : ExpandedOccurrence) : Prop where
  produced : Produces input.rule input.dtstart input.zone x
  after : input.after < x.instant
  least : ∀ y, Produces input.rule input.dtstart input.zone y → input.after < y.instant → x.instant ≤ y.instant

section
variable {input : ExpandInput} (s : StartDay input.dtstart.toDate) (clock : LocalDateTime.Clock input.dtstart)

theorem Listed.produced {x : ExpandedOccurrence} (listed : Listed input x) (limit : input.limit = maxOccurrences)
    (s : StartDay input.dtstart.toDate) (clock : LocalDateTime.Clock input.dtstart) :
    Produces input.rule input.dtstart input.zone x := by
  obtain ⟨periods,mem⟩ := listed.plain s clock
  exact ⟨input.window,periods,limit ▸ mem⟩

include s clock in
theorem expandOrdered {e : Expansion} (ok : expand input = some (.ok e)) :
    e.occurrences.Pairwise (fun x y => x.instant < y.instant) := by
  simp only [expand,bind,Option.bind_eq_some_iff] at ok
  obtain ⟨pass,found,result⟩ := ok
  cases pass with
  | returned result' =>
    cases result
    obtain ⟨first,length,passed,rest,-,stopped⟩ := periodsStopped found
    have ordered := stopped.visited ▸ seriesOrdered s clock first length
    rw [stopped.occurrences]
    exact ((List.pairwise_append.mp ordered).1.filter _).imp And.right
  | next progress =>
    cases result
    simp only [periods,bind,Option.bind_eq_some_iff] at found
    obtain ⟨windowEnd,-,from_,start,found⟩ := found
    cases from_ with
    | none =>
      cases found
      exact List.Pairwise.nil
    | some first =>
      have walked := walkExhausted found
      have ordered := seriesOrdered s clock first maxPeriods
      generalize (List.range' first maxPeriods).flatMap (occurrencesIn input) = all at walked ordered
      cases walked with
      | next passed => simpa [Progress.and] using (ordered.filter _).imp And.right

end

section
variable {input : NextOccurrenceInput} (s : StartDay input.dtstart.toDate) (clock : LocalDateTime.Clock input.dtstart)
  {x : ExpandedOccurrence} {steps spanDays : Nat} {start : Instant}

theorem windowForward : start ≤ start + spanDays * msPerDay := by
  have positive : (0 : Int) ≤ spanDays * msPerDay := Int.mul_nonneg (Int.natCast_nonneg _) (by decide)
  exact le_add_of_nonneg_right positive

theorem stepExpanded {e : Expansion} (ok : expand (input.of ⟨start,start + spanDays * msPerDay⟩) = some (.ok e)) :
    stepWindows input (steps + 1) start spanDays = match e.occurrences with
      | first :: _ => some (.ok (some first))
      | [] =>
        if e.exhausted then some (.ok none)
        else stepWindows input steps (start + spanDays * msPerDay) (min (spanDays * 2) maxSpanDays) := by
  unfold NextOccurrenceInput.of at ok
  rw [stepWindows]
  cases occurrences : e.occurrences <;> simp only [bind,ok,Option.bind_some,occurrences]

theorem windowSource {found : Option ExpandedOccurrence}
    (is : stepWindows input (steps + 1) start spanDays = some (.ok found)) :
    ∃ e, expand (input.of ⟨start,start + spanDays * msPerDay⟩) = some (.ok e) := by
  simp only [stepWindows,bind,Option.bind_eq_some_iff] at is
  obtain ⟨result,expanded,is⟩ := is
  cases result with
  | error e => cases is
  | ok e => exact ⟨e,expanded⟩

theorem windowShort (few : spanDays ≤ maxSpanDays) :
    (start + spanDays * msPerDay : Instant) - start ≤ 4000 * msPerDay := by
  rw [add_sub_cancel_left]
  exact Int.mul_le_mul_of_nonneg_right (by unfold maxSpanDays at few; omega) (by decide)

include s clock

theorem expandedInside {window : Window} {e : Expansion} (ok : expand (input.of window) = some (.ok e))
    {y : ExpandedOccurrence} (mem : y ∈ e.occurrences) : Produces input.rule input.dtstart input.zone y ∧
      window.start ≤ y.instant ∧ y.instant < window.stop := by
  have listed := expandListed ok mem
  have inside := listed.inside
  simp only [within,Bool.and_eq_true,decide_eq_true_eq] at inside
  exact ⟨listed.produced rfl s clock,inside⟩

theorem windowBefore (first : FirstAfter input x) {window : Window} (later : input.after < window.start)
    (forward : window.start ≤ window.stop) (before : window.stop ≤ x.instant) {e : Expansion}
    (ok : expand (input.of window) = some (.ok e)) : e.occurrences = [] ∧ e.exhausted = false := by
  constructor
  · refine List.eq_nil_iff_forall_not_mem.mpr (fun y mem => ?_)
    obtain ⟨produced,since,till⟩ := expandedInside s clock ok mem
    have least := first.least y produced (lt_of_lt_of_le later since)
    exact absurd (lt_of_lt_of_le till (le_trans before least)) (lt_irrefl _)
  · cases exhausted : e.exhausted with
    | false => rfl
    | true =>
      have since := le_trans forward before
      exact absurd (exhaustedNone s clock ok exhausted since first.produced) (not_lt_of_ge before)

theorem windowHas (first : FirstAfter input x) {window : Window}
    (later : input.after < window.start) (short : window.stop - window.start ≤ 4000 * msPerDay)
    (since : window.start ≤ x.instant) (till : x.instant < window.stop)
    (visited : input.rule.count.isSome = true → ∃ k < maxPeriods, x ∈ occurrencesIn (input.of window) k) {e : Expansion}
    (ok : expand (input.of window) = some (.ok e)) : ∃ rest, e.occurrences = x :: rest := by
  have inside : within (input.of window).window x = true := by
    simp only [within,Bool.and_eq_true,decide_eq_true_eq]
    exact ⟨since,till⟩
  have mem := expandComplete s clock ok short first.produced inside visited
  have ordered := expandOrdered s clock ok
  cases is : e.occurrences with
  | nil =>
    rw [is] at mem
    cases mem
  | cons y rest =>
    obtain ⟨produced,since',-⟩ := expandedInside s clock ok (is ▸ List.mem_cons_self : y ∈ e.occurrences)
    have least := first.least y produced (lt_of_lt_of_le later since')
    rw [is] at mem ordered
    rcases List.mem_cons.mp mem with rfl | after
    · exact ⟨rest,rfl⟩
    · exact absurd (lt_of_lt_of_le ((List.pairwise_cons.mp ordered).1 x after) least) (lt_irrefl _)

theorem stepsFirst (first : FirstAfter input x) (later : input.after < start)
    (since : start ≤ x.instant) (few : spanDays ≤ maxSpanDays)
    (visited : input.rule.count.isSome = true → ∃ k < maxPeriods, x ∈ occurrencesIn (input.of ⟨start,start⟩) k) :
    stepWindows input steps start spanDays = some (.ok (some x)) ↔ Reaches input x (windowsFrom steps start spanDays) := by
  induction steps generalizing start spanDays with
  | zero => exact ⟨fun found => (by cases found),False.elim⟩
  | succ steps ih =>
    have forward := @windowForward spanDays start
    have short := @windowShort spanDays start few
    suffices ∀ e, expand (input.of ⟨start,start + spanDays * msPerDay⟩) = some (.ok e) →
        (stepWindows input (steps + 1) start spanDays = some (.ok (some x)) ↔
          x.instant < start + spanDays * msPerDay ∨
            Reaches input x (windowsFrom steps (start + spanDays * msPerDay) (min (spanDays * 2) maxSpanDays))) by
      constructor
      · intro found
        obtain ⟨e,expanded⟩ := windowSource found
        exact ⟨⟨e,expanded⟩,(this e expanded).mp found⟩
      · rintro ⟨⟨e,expanded⟩,reaches⟩
        exact (this e expanded).mpr reaches
    intro e expanded
    rw [stepExpanded expanded]
    by_cases inside : x.instant < start + spanDays * msPerDay
    · obtain ⟨rest,is⟩ := @windowHas _ s clock _ first ⟨start,start + spanDays * msPerDay⟩ later short since inside
        visited _ expanded
      simp only [is,inside,true_or]
    · have before := Int.not_lt.mp inside
      obtain ⟨none_,open_⟩ := windowBefore s clock first later forward before expanded
      have next := @ih (min (spanDays * 2) maxSpanDays) (start + spanDays * msPerDay) (lt_of_lt_of_le later forward)
        before (min_le_right _ _) visited
      simp only [none_,open_,Bool.false_eq_true,if_false,inside,false_or]
      exact next

theorem stepsNone (none_ : ∀ y, Produces input.rule input.dtstart input.zone y → y.instant ≤ input.after)
    (later : input.after < start) :
    stepWindows input steps start spanDays = some (.ok none) ↔ RunsOut input (windowsFrom steps start spanDays) := by
  induction steps generalizing start spanDays with
  | zero => exact ⟨fun _ => trivial,fun _ => rfl⟩
  | succ steps ih =>
    have forward := @windowForward spanDays start
    suffices ∀ e, expand (input.of ⟨start,start + spanDays * msPerDay⟩) = some (.ok e) →
        (stepWindows input (steps + 1) start spanDays = some (.ok none) ↔ (e.exhausted = true ∨
          RunsOut input (windowsFrom steps (start + spanDays * msPerDay) (min (spanDays * 2) maxSpanDays)))) by
      constructor
      · intro found
        obtain ⟨e,expanded⟩ := windowSource found
        exact ⟨e,expanded,(this e expanded).mp found⟩
      · rintro ⟨e,expanded,rest⟩
        exact (this e expanded).mpr rest
    intro e expanded
    have empty : e.occurrences = [] := by
      refine List.eq_nil_iff_forall_not_mem.mpr (fun y mem => ?_)
      obtain ⟨produced,since,-⟩ := expandedInside s clock expanded mem
      exact absurd (lt_of_lt_of_le (lt_of_lt_of_le later since) (none_ y produced)) (lt_irrefl _)
    rw [stepExpanded expanded,empty]
    by_cases exhausted : e.exhausted = true
    · simp only [exhausted,if_true,true_or]
    · simp only [exhausted,Bool.false_eq_true,if_false,false_or]
      exact ih (lt_of_lt_of_le later forward)

end

def Pass.listed : Pass → List ExpandedOccurrence
  | .next progress => progress.occurrences
  | .returned (.ok e) => e.occurrences
  | .returned (.error _) => []

section
variable {input : ExpandInput} {progress : Progress} {pass : Pass} {y : ExpandedOccurrence}

theorem walkedListed {xs : List ExpandedOccurrence} (walked : Walked input progress xs pass) (mem : y ∈ pass.listed) :
    y ∈ progress.occurrences ∨ y ∈ xs := by
  cases walked with
  | next passed =>
    rcases List.mem_append.mp mem with old | new
    · exact .inl old
    · exact .inr (List.mem_of_mem_filter new)
  | ended passed ends =>
    rcases List.mem_append.mp mem with old | new
    · exact .inl old
    · exact .inr (List.mem_append_left _ (List.mem_of_mem_filter new))
  | refused => cases mem

theorem walkListed {windowEnd : LocalDate} {fuel k : Nat} (found : walk input windowEnd fuel k progress = some pass)
    (mem : y ∈ pass.listed) : y ∈ progress.occurrences ∨ ∃ j < k + fuel, y ∈ occurrencesIn input j := by
  induction fuel generalizing k progress with
  | zero =>
    cases found
    exact .inl mem
  | succ fuel ih =>
    unfold walk at found
    split at found
    · cases found
      exact .inl mem
    simp only [bind,Option.bind_eq_some_iff] at found
    obtain ⟨first,visited,found⟩ := found
    have here : ∀ z ∈ first.listed, z ∈ progress.occurrences ∨ ∃ j < k + (fuel + 1), z ∈ occurrencesIn input j :=
      fun z source => (walkedListed (visitAllWalked visited) source).imp_right (fun there => ⟨k,by omega,there⟩)
    cases first with
    | next later =>
      rcases ih found with old | ⟨j,less,there⟩
      · exact here y old
      · exact .inr ⟨j,by omega,there⟩
    | returned result =>
      cases found
      exact here y mem

theorem expandVisited {e : Expansion} (ok : expand input = some (.ok e)) (mem : y ∈ e.occurrences)
    (count : input.rule.count.isSome = true) : ∃ k < maxPeriods, y ∈ occurrencesIn input k := by
  simp only [expand,periods,bind,Option.bind_eq_some_iff] at ok
  obtain ⟨pass,⟨windowEnd,-,from_,start,found⟩,result⟩ := ok
  rw [firstPeriod,if_pos count] at start
  obtain rfl := Option.some.inj start
  have listed : y ∈ pass.listed := by
    cases pass with
    | next progress =>
      cases result
      exact mem
    | returned result' =>
      cases result
      exact mem
  rcases walkListed found listed with old | ⟨j,less,there⟩
  · cases old
  · exact ⟨j,by omega,there⟩

end

theorem occursIff {input : ExpandInput} (s : StartDay input.dtstart.toDate) (clock : LocalDateTime.Clock input.dtstart)
    {x : ExpandedOccurrence} {j k : Nat} (occurs : x ∈ occurrencesIn input j) :
    x ∈ occurrencesIn input k ↔ some x.reading.toDate ∈ candidatesForPeriod input.rule input.dtstart.toDate k := by
  refine ⟨occursCandidate s clock,fun candidate => ?_⟩
  rw [occurrencesSome] at occurs
  obtain ⟨d,source,found⟩ := List.mem_filterMap.mp occurs
  obtain ⟨_,there,rfl⟩ := List.mem_filterMap.mp source
  rw [(occurrenceSource s clock there found).1] at candidate
  exact List.mem_filterMap.mpr ⟨some d,candidate,found⟩

theorem spanAtMost (rule : RecurrenceRule) : initialSpanDays rule ≤ maxSpanDays := by
  unfold initialSpanDays
  cases rule.interval
  · exact min_le_right _ _
  · exact le_rfl

section
variable {input : NextOccurrenceInput} (s : StartDay input.dtstart.toDate) (clock : LocalDateTime.Clock input.dtstart)
  {x : ExpandedOccurrence}
include s clock

theorem nextFirst (first : FirstAfter input x) :
    nextOccurrenceAfter input = some (.ok (some x)) ↔ Reaches input x input.windows ∧ (input.rule.count.isSome = true →
      ∃ k < maxPeriods, some x.reading.toDate ∈ candidatesForPeriod input.rule input.dtstart.toDate k) := by
  obtain ⟨j,occurs⟩ := @producesOccurs (input.of ⟨input.after,input.after⟩) _ first.produced
  have steps := fun visited => @stepsFirst _ s clock _ maxSteps _ (input.after + 1) first (Int.lt_succ _)
    (Int.add_one_le_of_lt first.after) (spanAtMost input.rule) visited
  constructor
  · intro found
    obtain ⟨-,window,e,expanded,mem⟩ := stepsFound found
    have visited := expandVisited expanded mem
    refine ⟨(steps visited).mp found,fun count => ?_⟩
    obtain ⟨k,less,there⟩ := visited count
    exact ⟨k,less,(@occursIff (input.of window) s clock x j k occurs).mp there⟩
  · rintro ⟨reaches,visited⟩
    refine (steps (fun count => ?_)).mpr reaches
    obtain ⟨k,less,candidate⟩ := visited count
    exact ⟨k,less,(@occursIff (input.of ⟨input.after,input.after⟩) s clock x j k occurs).mpr candidate⟩

theorem nextNone (none_ : ∀ y, Produces input.rule input.dtstart input.zone y → y.instant ≤ input.after) :
    nextOccurrenceAfter input = some (.ok none) ↔ RunsOut input input.windows :=
  stepsNone s clock none_ (Int.lt_succ _)

end

def searchDays : (steps : Nat) → Nat → Nat
  | 0, _ => 0
  | steps + 1, spanDays => spanDays + searchDays steps (min (spanDays * 2) maxSpanDays)

section
variable {input : NextOccurrenceInput} (s : StartDay input.dtstart.toDate) (clock : LocalDateTime.Clock input.dtstart)
  {x y : ExpandedOccurrence}
include s clock

end

end FamilyPlatform.Recurrence
