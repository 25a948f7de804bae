import Mathlib.Tactic.Ring

/-! Local readings under an offset that now and then changes. A reading is resolved by
the offsets a day before and a day after it, as both or one of them reads back as it. -/
namespace FamilyPlatform.Offsets
variable (offset : Int → Int)

/- Within a span the offset changes at most once. -/
def Spaced (span : Int) : Prop :=
  ∀ s, ∃ change, ∀ u, s ≤ u → u ≤ s + span → offset u = if u < change then offset s else offset (s + span)

structure Apart (day bound : Int) : Prop where
  short : bound < day
  bounded : ∀ s, -bound ≤ offset s ∧ offset s ≤ bound
  spaced : Spaced offset (2 * day)

structure Steady (day bound : Int) : Prop where
  short : bound < day
  bounded : ∀ s, -bound ≤ offset s ∧ offset s ≤ bound
  small : ∀ s, -day < offset (s + 1) - offset s ∧ offset (s + 1) - offset s < day
  spaced : Spaced offset (2 * day)

def ReadsBack (reading shift : Int) : Prop := offset (reading - shift) = shift

instance (reading shift : Int) : Decidable (ReadsBack offset reading shift) := inferInstanceAs (Decidable (_ = _))

def resolve (day reading : Int) : Int :=
  let before := offset (reading - day)
  let after := offset (reading + day)
  match decide (ReadsBack offset reading before), decide (ReadsBack offset reading after) with
  | true, true => min (reading - before) (reading - after)
  | true, false => reading - before
  | false, true => reading - after
  | false, false => reading - before

def Skips (change reading : Int) : Prop :=
  offset (change - 1) < offset change ∧ change + offset (change - 1) ≤ reading ∧ reading < change + offset change

def On (day reading s : Int) : Prop := reading ≤ s + offset s ∧ s + offset s < reading + day

def Straddles (change reading : Int) : Prop :=
  Skips offset change reading ∧ change + offset (change - 1) < reading

def Begins (day reading s : Int) : Prop := On offset day reading s ∧ ∀ t, On offset day reading t → s ≤ t

def ReadsFirst (day reading shift : Int) : Prop := ReadsBack offset reading shift ∧
  (ReadsBack offset reading (offset (reading - day)) → offset (reading - day) = shift)

def taken (reading first second : Int) : Int :=
  match decide (first + offset first = reading), decide (second + offset second = reading) with
  | true, true => min first second
  | true, false => first
  | false, true => second
  | false, false => first

variable {offset} {day bound : Int}

theorem resolveTaken (reading : Int) : resolve offset day reading =
    taken offset reading (reading - offset (reading - day)) (reading - offset (reading + day)) := by
  have back : ∀ shift, ReadsBack offset reading shift ↔ reading - shift + offset (reading - shift) = reading := by
    intro shift
    unfold ReadsBack
    omega
  simp only [resolve,taken,back]

theorem resolveCases (reading : Int) : resolve offset day reading = reading - offset (reading - day) ∨
    resolve offset day reading = reading - offset (reading + day) := by
  simp only [resolve]
  split <;> first | exact .inl rfl | exact .inr rfl | exact min_choice _ _

theorem resolveLater {reading : Int} (apart : ¬ ReadsBack offset reading (offset (reading - day)))
    (back : ReadsBack offset reading (offset (reading + day))) :
    resolve offset day reading = reading - offset (reading + day) := by
  simp [resolve,apart,back]

theorem resolveOnly {reading : Int} (back : ReadsBack offset reading (offset (reading - day)))
    (apart : ¬ ReadsBack offset reading (offset (reading + day))) :
    resolve offset day reading = reading - offset (reading - day) := by
  simp [resolve,apart,back]

namespace Apart
variable (apart : Apart offset day bound)
include apart

theorem positive : 0 < day := by
  have := apart.bounded 0
  have := apart.short
  omega

theorem resolveBounds (reading : Int) : reading - bound ≤ resolve offset day reading ∧
    resolve offset day reading ≤ reading + bound := by
  have := apart.bounded (reading - day)
  have := apart.bounded (reading + day)
  rcases @resolveCases offset day reading with is | is <;> rw [is] <;> omega

theorem changed {s t : Int} (le : s ≤ t) (near : t ≤ s + 2 * day) (differ : offset s ≠ offset t) :
    ∃ change, s < change ∧ change ≤ t ∧
      ∀ u, s ≤ u → u ≤ s + 2 * day → offset u = if u < change then offset s else offset t := by
  obtain ⟨change,only⟩ := apart.spaced s
  have here := only s (Int.le_refl s) (by omega)
  have there := only t le near
  have after : s < change := by
    by_contra before
    rw [if_neg before] at here
    rw [if_neg (by omega)] at there
    exact differ (here.trans there.symm)
  have upTo : change ≤ t := by
    by_contra before
    rw [if_pos (by omega)] at there
    exact differ there.symm
  rw [if_neg (by omega)] at there
  exact ⟨change,after,upTo,fun u from_ to_ => there ▸ only u from_ to_⟩

theorem around (reading : Int) : ∃ change, ∀ u, reading - day ≤ u → u ≤ reading + day →
    offset u = if u < change then offset (reading - day) else offset (reading + day) := by
  obtain ⟨change,only⟩ := apart.spaced (reading - day)
  have last : reading - day + 2 * day = reading + day := by omega
  rw [last] at only
  exact ⟨change,only⟩

theorem readNear {s reading : Int} (reads : s + offset s = reading) : reading - bound ≤ s ∧ s ≤ reading + bound := by
  have := apart.bounded s
  omega

theorem readBy {s reading : Int} (reads : s + offset s = reading) :
    (s = reading - offset (reading - day) ∧ ReadsBack offset reading (offset (reading - day))) ∨
      (s = reading - offset (reading + day) ∧ ReadsBack offset reading (offset (reading + day))) := by
  obtain ⟨low,high⟩ := apart.readNear reads
  obtain ⟨change,only⟩ := apart.around reading
  have short := apart.short
  have taken := only s (by omega) (by omega)
  have at_ : reading - offset s = s := by omega
  split at taken
  · left
    rw [← taken]
    exact ⟨at_.symm,by rw [ReadsBack,at_]⟩
  · right
    rw [← taken]
    exact ⟨at_.symm,by rw [ReadsBack,at_]⟩

theorem resolveLeast {s reading : Int} (reads : s + offset s = reading) :
    resolve offset day reading + offset (resolve offset day reading) = reading ∧
      ∀ t, t + offset t = reading → resolve offset day reading ≤ t := by
  by_cases before : ReadsBack offset reading (offset (reading - day))
  · by_cases after : ReadsBack offset reading (offset (reading + day))
    · have is : resolve offset day reading = min (reading - offset (reading - day)) (reading - offset (reading + day)) := by
        simp [resolve,before,after]
      rw [is]
      unfold ReadsBack at before after
      constructor
      · rcases min_choice (reading - offset (reading - day)) (reading - offset (reading + day)) with low | low <;>
          rw [low] <;> omega
      · intro t readsT
        rcases apart.readBy readsT with ⟨rfl,-⟩ | ⟨rfl,-⟩
        · exact min_le_left _ _
        · exact min_le_right _ _
    · rw [resolveOnly before after]
      refine ⟨by unfold ReadsBack at before; omega,fun t readsT => ?_⟩
      rcases apart.readBy readsT with ⟨rfl,-⟩ | ⟨-,back⟩
      · exact Int.le_refl _
      · exact absurd back after
  · have after : ReadsBack offset reading (offset (reading + day)) :=
      (apart.readBy reads).elim (fun is => absurd is.2 before) And.right
    rw [resolveLater before after]
    refine ⟨by unfold ReadsBack at after; omega,fun t readsT => ?_⟩
    rcases apart.readBy readsT with ⟨-,back⟩ | ⟨rfl,-⟩
    · exact absurd back before
    · exact Int.le_refl _

theorem skipped {change reading : Int} (skips : Skips offset change reading) :
    offset (change - 1) = offset (reading - day) ∧ offset change = offset (reading + day) ∧
      ∀ u, reading - day ≤ u → u ≤ reading + day →
        offset u = if u < change then offset (reading - day) else offset (reading + day) := by
  obtain ⟨wider,since,till⟩ := skips
  have short := apart.short
  have := apart.bounded (change - 1)
  have := apart.bounded change
  obtain ⟨other,only⟩ := apart.around reading
  have before := only (change - 1) (by omega) (by omega)
  have after := only change (by omega) (by omega)
  have same : change = other := by
    by_contra apart
    rcases Int.lt_or_gt_of_ne apart with less | more
    · rw [if_pos (by omega)] at before after
      omega
    · rw [if_neg (by omega)] at before after
      omega
  subst same
  rw [if_pos (by omega)] at before
  rw [if_neg (by omega)] at after
  exact ⟨before,after,only⟩

theorem unreadSkipped {reading : Int} (unread : ∀ s, s + offset s ≠ reading) : ∃ change, Skips offset change reading := by
  obtain ⟨change,only⟩ := apart.around reading
  have short := apart.short
  have boundBefore := apart.bounded (reading - day)
  have boundAfter := apart.bounded (reading + day)
  have early := unread (reading - offset (reading - day))
  have late := unread (reading - offset (reading + day))
  have first := only (reading - offset (reading - day)) (by omega) (by omega)
  have second := only (reading - offset (reading + day)) (by omega) (by omega)
  have since : change ≤ reading - offset (reading - day) := by
    by_contra before
    rw [if_pos (by omega)] at first
    omega
  have till : reading - offset (reading + day) < change := by
    by_contra after
    rw [if_neg after] at second
    omega
  have before := only (change - 1) (by omega) (by omega)
  have after := only change (by omega) (by omega)
  rw [if_pos (by omega)] at before
  rw [if_neg (by omega)] at after
  exact ⟨change,by omega,by omega,by omega⟩

theorem resolveSkipped {change reading : Int} (skips : Skips offset change reading) :
    resolve offset day reading = reading - offset (change - 1) ∧
      resolve offset day reading + offset (resolve offset day reading) =
        reading + (offset change - offset (change - 1)) := by
  obtain ⟨before,after,only⟩ := apart.skipped skips
  obtain ⟨wider,since,till⟩ := skips
  rw [before,after] at *
  have short := apart.short
  have boundBefore := apart.bounded (reading - day)
  have boundAfter := apart.bounded (reading + day)
  have first := only (reading - offset (reading - day)) (by omega) (by omega)
  have second := only (reading - offset (reading + day)) (by omega) (by omega)
  rw [if_neg (by omega)] at first
  rw [if_pos (by omega)] at second
  have is : resolve offset day reading = reading - offset (reading - day) := by
    have notFirst : ¬ ReadsBack offset reading (offset (reading - day)) := by
      rw [ReadsBack,first]
      omega
    have notSecond : ¬ ReadsBack offset reading (offset (reading + day)) := by
      rw [ReadsBack,second]
      omega
    simp [resolve,notFirst,notSecond]
  rw [is,first]
  exact ⟨rfl,by omega⟩

end Apart

theorem Steady.apart (steady : Steady offset day bound) : Apart offset day bound :=
  ⟨steady.short,steady.bounded,steady.spaced⟩

namespace Steady
variable (steady : Steady offset day bound)
include steady

theorem near {s t : Int} (le : s ≤ t) (near : t ≤ s + 2 * day) :
    -day < offset t - offset s ∧ offset t - offset s < day := by
  have := steady.apart.positive
  by_cases same : offset s = offset t
  · omega
  · obtain ⟨change,after,upTo,only⟩ := steady.apart.changed le near same
    have before := only (change - 1) (by omega) (by omega)
    have at_ := only change (by omega) (by omega)
    have step := steady.small (change - 1)
    rw [if_pos (by omega)] at before
    rw [if_neg (by omega)] at at_
    rw [Int.sub_add_cancel,before,at_] at step
    exact step

theorem resolveOn (reading : Int) : On offset day reading (resolve offset day reading) := by
  have positive := steady.apart.positive
  by_cases read : ∃ s, s + offset s = reading
  · obtain ⟨s,reads⟩ := read
    have back := (steady.apart.resolveLeast reads).1
    unfold On
    omega
  · obtain ⟨change,skips⟩ := steady.apart.unreadSkipped (fun s is => read ⟨s,is⟩)
    have later := (steady.apart.resolveSkipped skips).2
    have small := steady.small (change - 1)
    rw [Int.sub_add_cancel] at small
    obtain ⟨wider,-,-⟩ := skips
    unfold On
    omega

theorem resolveAfter {instant reading : Int} (later : instant + offset instant + day ≤ reading) :
    instant < resolve offset day reading := by
  have short := steady.short
  have here := steady.bounded instant
  have positive := steady.apart.positive
  have taken : ∀ shift, shift ≤ bound → (reading - instant ≤ bound → shift < offset instant + day) →
      instant < reading - shift := by
    intro shift most less
    by_cases far : reading - instant ≤ bound
    · have := less far
      omega
    · omega
  rcases @resolveCases offset day reading with is | is <;> rw [is]
  · refine taken _ (steady.bounded _).2 (fun close => ?_)
    have := steady.near (show reading - day ≤ instant by omega) (by omega)
    omega
  · refine taken _ (steady.bounded _).2 (fun close => ?_)
    have := steady.near (show instant ≤ reading + day by omega) (by omega)
    omega

/- Only the offset a day before a reading and that a day after the next are more than two
days apart. Where those differ by a day, one of the readings is resolved by the offset
in force between them. -/
theorem resolveNextDay (reading : Int) : resolve offset day reading < resolve offset day (reading + day) := by
  have positive := steady.apart.positive
  have short := steady.short
  have back : reading + day - day = reading := by omega
  have on : reading + day + day = reading + 2 * day := by omega
  have first := @resolveCases offset day reading
  have second := @resolveCases offset day (reading + day)
  rw [back,on] at second
  have := steady.near (show reading - day ≤ reading by omega) (by omega)
  have := steady.near (show reading ≤ reading + day by omega) (by omega)
  have := steady.near (show reading ≤ reading + 2 * day by omega) (by omega)
  have := steady.near (show reading - day ≤ reading + day by omega) (by omega)
  have := steady.near (show reading + day ≤ reading + 2 * day by omega) (by omega)
  have boundFirst := steady.bounded (reading - day)
  have boundNow := steady.bounded reading
  have boundLast := steady.bounded (reading + 2 * day)
  by_contra notLess
  have takesFirst : resolve offset day reading = reading - offset (reading - day) := by omega
  have takesLast : resolve offset day (reading + day) = reading + day - offset (reading + 2 * day) := by omega
  have far : day ≤ offset (reading + 2 * day) - offset (reading - day) := by omega
  obtain ⟨one,-,upToOne,onlyOne⟩ := steady.apart.changed (show reading - day ≤ reading by omega) (by omega) (by omega)
  obtain ⟨two,-,-,onlyTwo⟩ := steady.apart.changed (show reading ≤ reading + 2 * day by omega) (by omega) (by omega)
  have between : offset (reading + day) = offset reading := by
    rw [onlyOne (reading + day) (by omega) (by omega),if_neg (by omega)]
  have afterTwo : reading + day < two := by
    by_contra notAfter
    have last := onlyTwo (reading + day) (by omega) (by omega)
    rw [if_neg (by omega)] at last
    omega
  have apart : ¬ ReadsBack offset reading (offset (reading - day)) := by
    rw [ReadsBack,onlyOne _ (by omega) (by omega),if_neg (by omega)]
    omega
  have gap : ¬ ReadsBack offset reading (offset (reading + day)) := by
    intro reads
    have := resolveLater apart reads
    omega
  have beforeOne : reading - offset reading < one := by
    by_contra notBefore
    rw [between,ReadsBack,onlyOne _ (by omega) (by omega),if_neg notBefore] at gap
    exact gap rfl
  have reads : ReadsBack offset (reading + day) (offset (reading + day - day)) := by
    rw [back,ReadsBack,onlyTwo _ (by omega) (by omega),if_pos (by omega)]
  have apartLast : ¬ ReadsBack offset (reading + day) (offset (reading + day + day)) := by
    rw [on,ReadsBack,onlyTwo _ (by omega) (by omega),if_pos (by omega)]
    omega
  have := resolveOnly reads apartLast
  rw [back] at this
  omega

theorem resolveMono {reading later : Int} {n : Nat} (positive : 0 < n) (is : later = reading + n * day) :
    resolve offset day reading < resolve offset day later := by
  subst is
  induction n with
  | zero => omega
  | succ n ih =>
    have next := steady.resolveNextDay (reading + n * day)
    have same : reading + (n + 1 : Nat) * day = reading + n * day + day := by push_cast; ring
    rw [same]
    rcases Nat.eq_zero_or_pos n with rfl | more
    · simpa using next
    · exact lt_trans (ih more) next

omit steady in
theorem onNear (apart : Apart offset day bound) {s reading : Int} (on : On offset day reading s) :
    reading - bound ≤ s := by
  have := apart.bounded s
  have := on.1
  omega

theorem straddledLater {change reading : Int} (straddles : Straddles offset change reading) :
    On offset day reading change ∧ change < resolve offset day reading := by
  obtain ⟨skips,before⟩ := straddles
  have step := steady.small (change - 1)
  rw [Int.sub_add_cancel] at step
  rw [(steady.apart.resolveSkipped skips).1]
  obtain ⟨-,-,till⟩ := skips
  exact ⟨⟨by omega,by omega⟩,by omega⟩

theorem readFirst {s t reading : Int} (reads : s + offset s = reading) (on : On offset day reading t) :
    resolve offset day reading ≤ t := by
  obtain ⟨same,least⟩ := steady.apart.resolveLeast reads
  have near := steady.apart.readNear same
  have early := onNear steady.apart on
  have short := steady.short
  by_contra later
  obtain ⟨change,only⟩ := steady.apart.around reading
  have boundBefore := steady.bounded (reading - day)
  have first := only t (by omega) (by omega)
  have last := only (resolve offset day reading) (by omega) (by omega)
  have since := on.1
  by_cases before : t < change
  · -- The reading is told before the change, and at an earlier second.
    rw [if_pos before] at first
    have there := only (reading - offset (reading - day)) (by omega) (by omega)
    rw [if_pos (by omega)] at there
    have := least (reading - offset (reading - day)) (by omega)
    omega
  · rw [if_neg before] at first
    rw [if_neg (by omega)] at last
    omega

theorem resolveFirst (reading : Int) : (On offset day reading (resolve offset day reading) ∧
    ∀ s, On offset day reading s → resolve offset day reading ≤ s) ↔ ¬ ∃ change, Straddles offset change reading := by
  constructor
  · rintro ⟨-,least⟩ ⟨change,straddles⟩
    obtain ⟨on,later⟩ := steady.straddledLater straddles
    have := least change on
    omega
  · intro none_
    have positive := steady.apart.positive
    by_cases unread : ∃ s, s + offset s = reading
    · obtain ⟨s,reads⟩ := unread
      obtain ⟨same,-⟩ := steady.apart.resolveLeast reads
      exact ⟨⟨by omega,by omega⟩,fun t on => steady.readFirst reads on⟩
    · obtain ⟨change,skips⟩ := steady.apart.unreadSkipped (fun s reads => unread ⟨s,reads⟩)
      have step := steady.small (change - 1)
      rw [Int.sub_add_cancel] at step
      obtain ⟨is,reads⟩ := steady.apart.resolveSkipped skips
      obtain ⟨before,-,only⟩ := steady.apart.skipped skips
      have begins : change + offset (change - 1) = reading := by
        by_contra apart
        have := skips.2.1
        exact none_ ⟨change,skips,by omega⟩
      refine ⟨⟨by have := skips.1; omega,by omega⟩,fun t on => ?_⟩
      by_contra earlier
      have low := onNear steady.apart on
      have short := steady.short
      have bounds := steady.bounded (change - 1)
      have told := only t (by omega) (by omega)
      rw [if_pos (by omega)] at told
      have := on.1
      omega

omit steady in
theorem beginsOnce {s t reading : Int} (first : Begins offset day reading s) (second : Begins offset day reading t) :
    s = t := Int.le_antisymm (first.2 t second.1) (second.2 s first.1)

theorem beginsStraddled {change reading : Int} (straddles : Straddles offset change reading) :
    Begins offset day reading change := by
  refine ⟨(steady.straddledLater straddles).1,fun t on => ?_⟩
  obtain ⟨skips,before⟩ := straddles
  obtain ⟨is,-,only⟩ := steady.apart.skipped skips
  have low := onNear steady.apart on
  have short := steady.short
  have bounds := steady.bounded (change - 1)
  by_contra earlier
  have told := only t (by omega) (by have := skips.2.1; omega)
  have since := on.1
  rw [if_pos (by omega)] at told
  omega

theorem beginsBy {shift reading : Int} (is : shift = offset (reading - day) ∨ shift = offset (reading + day)) :
    Begins offset day reading (reading - shift) ↔
      (¬ ∃ change, Straddles offset change reading) ∧ resolve offset day reading = reading - shift := by
  constructor
  · intro begins
    have none_ : ¬ ∃ change, Straddles offset change reading := by
      rintro ⟨change,straddles⟩
      have same := beginsOnce begins (steady.beginsStraddled straddles)
      obtain ⟨before,after,-⟩ := steady.apart.skipped straddles.1
      obtain ⟨⟨-,-,till⟩,early⟩ := straddles
      omega
    exact ⟨none_,beginsOnce ((steady.resolveFirst reading).mpr none_) begins⟩
  · rintro ⟨none_,same⟩
    exact same ▸ (steady.resolveFirst reading).mpr none_

theorem readsBoth {reading : Int} (before : ReadsBack offset reading (offset (reading - day)))
    (after : ReadsBack offset reading (offset (reading + day))) : offset (reading + day) ≤ offset (reading - day) := by
  obtain ⟨change,only⟩ := steady.apart.around reading
  have short := steady.short
  have boundBefore := steady.bounded (reading - day)
  have boundAfter := steady.bounded (reading + day)
  have first := only (reading - offset (reading - day)) (by omega) (by omega)
  have second := only (reading - offset (reading + day)) (by omega) (by omega)
  unfold ReadsBack at before after
  split at first <;> split at second <;> omega

theorem resolveBefore {reading : Int} : resolve offset day reading = reading - offset (reading - day) ↔
    (ReadsBack offset reading (offset (reading + day)) → ReadsBack offset reading (offset (reading - day))) := by
  by_cases before : ReadsBack offset reading (offset (reading - day))
  · refine iff_of_true ?_ (fun _ => before)
    by_cases after : ReadsBack offset reading (offset (reading + day))
    · have := steady.readsBoth before after
      simp only [resolve,before,after]
      exact min_eq_left (by omega)
    · exact resolveOnly before after
  · by_cases after : ReadsBack offset reading (offset (reading + day))
    · refine iff_of_false (fun same => before ?_) (fun all => before (all after))
      rw [resolveLater before after] at same
      rwa [show offset (reading - day) = offset (reading + day) by omega]
    · exact iff_of_true (by simp [resolve,before,after]) (fun there => absurd there after)

theorem resolveReadsFirst {shift reading : Int} (is : shift = offset (reading - day) ∨ shift = offset (reading + day)) :
    ReadsFirst offset day reading shift ↔
      ReadsBack offset reading shift ∧ resolve offset day reading = reading - shift := by
  refine and_congr_right (fun back => ?_)
  rcases is with rfl | rfl
  · exact iff_of_true (fun _ => rfl) (steady.resolveBefore.mpr (fun _ => back))
  · by_cases before : ReadsBack offset reading (offset (reading - day))
    · have same := steady.resolveBefore.mpr (fun _ => before)
      constructor
      · intro all
        rw [same,all before]
      · intro later _
        omega
    · exact iff_of_true (fun there => absurd there before) (resolveLater before back)

/-! Offsets that are taken a day too far: the reading a day before, or a day after, is told as of the day after it. -/

theorem earlyProbe {reading : Int} : Begins offset day reading
      (taken offset reading (reading - (offset (reading - day) + day)) (reading - offset (reading + day))) ↔
    (¬ ∃ change, Straddles offset change reading) ∧ ReadsFirst offset day reading (offset (reading + day)) := by
  have short := steady.short
  have bounds := steady.bounded (reading - day)
  have early : offset (reading - (offset (reading - day) + day)) < offset (reading - day) + day := by
    rcases Int.le_total 0 (offset (reading - day)) with low | low
    · have := steady.near (show reading - (offset (reading - day) + day) ≤ reading - day by omega) (by omega)
      omega
    · have := steady.near (show reading - day ≤ reading - (offset (reading - day) + day) by omega) (by omega)
      omega
  have first : ¬ reading - (offset (reading - day) + day) + offset (reading - (offset (reading - day) + day)) = reading := by
    omega
  rw [steady.resolveReadsFirst (.inr rfl),and_left_comm,← steady.beginsBy (.inr rfl)]
  by_cases back : ReadsBack offset reading (offset (reading + day))
  · have second : reading - offset (reading + day) + offset (reading - offset (reading + day)) = reading := by
      unfold ReadsBack at back
      omega
    simp only [taken,first,second,back,decide_true,decide_false,true_and]
  · have second : ¬ reading - offset (reading + day) + offset (reading - offset (reading + day)) = reading := by
      unfold ReadsBack at back
      omega
    simp only [taken,first,second,back,decide_false,false_and,iff_false]
    rintro ⟨⟨since,-⟩,-⟩
    omega

theorem lateProbe {reading : Int} (positive : 0 ≤ offset (reading + day)) : Begins offset day reading
      (taken offset reading (reading - offset (reading - day)) (reading - (offset (reading + day) + day))) ↔
    (¬ ∃ change, Straddles offset change reading) ∧
      (ReadsBack offset reading (offset (reading + day)) → ReadsBack offset reading (offset (reading - day))) := by
  have short := steady.short
  have bounds := steady.bounded (reading - (offset (reading + day) + day))
  have second : ¬ reading - (offset (reading + day) + day) + offset (reading - (offset (reading + day) + day)) = reading := by
    omega
  rw [← steady.resolveBefore,← steady.beginsBy (.inl rfl)]
  simp only [taken,second,decide_false]
  cases decide (reading - offset (reading - day) + offset (reading - offset (reading - day)) = reading) <;> rfl

theorem ownProbeSecond {reading : Int} : ¬ reading + day - offset (reading + 2 * day) +
    offset (reading + day - offset (reading + 2 * day)) = reading := by
  have short := steady.short
  have bounds := steady.bounded (reading + 2 * day)
  have := steady.near (show reading + day - offset (reading + 2 * day) ≤ reading + 2 * day by omega) (by omega)
  omega

theorem ownProbe {reading : Int} (positive : 0 ≤ offset reading) : Begins offset day reading
      (taken offset reading (reading + day - (offset reading + day)) (reading + day - offset (reading + 2 * day))) ↔
    (¬ ∃ change, Straddles offset change reading) ∧ ReadsFirst offset day reading (offset reading) := by
  have whole := steady.apart.positive
  have is : offset reading = offset (reading - day) ∨ offset reading = offset (reading + day) := by
    obtain ⟨change,only⟩ := steady.apart.around reading
    have here := only reading (by omega) (by omega)
    split at here
    · exact .inl here
    · exact .inr here
  have first : taken offset reading (reading + day - (offset reading + day)) (reading + day - offset (reading + 2 * day)) =
      reading - offset reading := by
    have same : reading + day - (offset reading + day) = reading - offset reading := by omega
    simp only [taken,steady.ownProbeSecond,decide_false,same]
    cases decide (reading - offset reading + offset (reading - offset reading) = reading) <;> rfl
  rw [first,steady.beginsBy is,steady.resolveReadsFirst is]
  refine and_congr_right (fun none_ => (and_iff_right_of_imp (fun same => ?_)).symm)
  -- A gap that begins at midnight has ended when as many seconds are counted.
  by_contra unread
  have nowhere : ∀ s, s + offset s ≠ reading := by
    intro s reads
    have back := (steady.apart.resolveLeast reads).1
    rw [same] at back
    exact unread (by unfold ReadsBack; omega)
  obtain ⟨change,skips⟩ := steady.apart.unreadSkipped nowhere
  obtain ⟨before,after,only⟩ := steady.apart.skipped skips
  obtain ⟨resolved,-⟩ := steady.apart.resolveSkipped skips
  have begins : change + offset (change - 1) = reading := by
    by_contra apart
    have := skips.2.1
    exact none_ ⟨change,skips,by omega⟩
  have here := only reading (by omega) (by omega)
  have wider := skips.1
  split at here <;> omega

theorem ownProbeLate {reading : Int} (negative : offset reading < 0) : ¬ Begins offset day reading
    (taken offset reading (reading + day - offset reading) (reading + day - offset (reading + 2 * day))) := by
  rintro ⟨-,least⟩
  have first : taken offset reading (reading + day - offset reading) (reading + day - offset (reading + 2 * day)) =
      reading + day - offset reading := by
    simp only [taken,steady.ownProbeSecond,decide_false]
    cases decide (reading + day - offset reading + offset (reading + day - offset reading) = reading) <;> rfl
  have early := least _ (steady.resolveOn reading)
  have near := steady.apart.resolveBounds reading
  have short := steady.short
  omega

end Steady
end FamilyPlatform.Offsets
