import Mathlib.Data.List.Sort

/-! A queue of which each round takes the first so many. Those that succeed leave it; those
that fail stay where they are, ahead of all that have not had their turn. -/
namespace FamilyPlatform.Batches
variable {α : Type} (size : Nat) (fails : α → Bool)

def round (queue : List α) : List α := (queue.take size).filter fails ++ queue.drop size

def rounds : Nat → List α → List α
  | 0, queue => queue
  | n + 1, queue => rounds n (round size fails queue)

/- Ahead of each that would succeed there is room for it in a batch. -/
def Room (queue : List α) : Prop :=
  ∀ before x after, queue = before ++ x :: after → fails x = false → (before.filter fails).length < size

def waiting (queue : List α) : List α := queue.filter (fun x => !fails x)

variable {size} {fails}

theorem memWaiting {queue : List α} {x : α} : x ∈ waiting fails queue ↔ x ∈ queue ∧ fails x = false := by
  simp [waiting]

theorem roundSublist (queue : List α) : (round size fails queue).Sublist queue := by
  have kept := (List.filter_sublist (p := fails) (l := queue.take size)).append (List.Sublist.refl (queue.drop size))
  rwa [List.take_append_drop] at kept

theorem sublistSplit {few many before after : List α} {x : α} (part : few.Sublist many) (is : few = before ++ x :: after) :
    ∃ before' after', many = before' ++ x :: after' ∧ before.Sublist before' := by
  subst is
  obtain ⟨front,back,rfl,first,rest⟩ := List.append_sublist_iff.mp part
  obtain ⟨skipped,left,rfl,mem,-⟩ := List.cons_sublist_iff.mp rest
  obtain ⟨between,others,rfl⟩ := List.append_of_mem mem
  exact ⟨front ++ between,others ++ left,by simp,first.trans (List.sublist_append_left _ _)⟩

theorem Room.part {few many : List α} (room : Room size fails many) (part : few.Sublist many) : Room size fails few := by
  intro before x after is succeeds
  obtain ⟨before',after',whole,kept⟩ := sublistSplit part is
  exact lt_of_le_of_lt (kept.filter fails).length_le (room before' x after' whole succeeds)

theorem takenAfter {before after : List α} {x : α} (less : before.length < size) : x ∈ (before ++ x :: after).take size := by
  rw [List.take_append]
  refine List.mem_append_right _ ?_
  obtain ⟨more,is⟩ : ∃ more, size - before.length = more + 1 := ⟨size - before.length - 1,by omega⟩
  rw [is,List.take_succ_cons]
  exact List.mem_cons_self

theorem firstTaken {queue : List α} (room : Room size fails queue) (some_ : waiting fails queue ≠ []) :
    ∃ x ∈ queue.take size, fails x = false := by
  obtain ⟨y,mem⟩ := List.exists_mem_of_ne_nil _ some_
  obtain ⟨there,succeeds⟩ := memWaiting.mp mem
  obtain ⟨x,found⟩ := Option.isSome_iff_exists.mp
    (List.find?_isSome (p := fun x => !fails x).mpr ⟨y,there,by rw [succeeds]; rfl⟩)
  obtain ⟨is,before,after,whole,ahead⟩ := List.find?_eq_some_iff_append.mp found
  have all : before.filter fails = before := List.filter_eq_self.mpr (fun z mem => by simpa using ahead z mem)
  have less := room before x after whole (by simpa using is)
  rw [all] at less
  exact ⟨x,whole ▸ takenAfter less,by simpa using is⟩

theorem waitingRound (queue : List α) : waiting fails (round size fails queue) = waiting fails (queue.drop size) := by
  have none_ : waiting fails ((queue.take size).filter fails) = [] := by
    refine List.filter_eq_nil_iff.mpr (fun x mem => ?_)
    simp [(List.mem_filter.mp mem).2]
  rw [round,waiting,List.filter_append]
  exact (congrArg (· ++ _) none_).trans (List.nil_append _)

theorem waitingSplit (queue : List α) : (waiting fails queue).length =
    (waiting fails (queue.take size)).length + (waiting fails (queue.drop size)).length := by
  rw [← List.length_append,waiting,waiting,waiting,← List.filter_append,List.take_append_drop]

theorem roundDrains {queue : List α} (room : Room size fails queue) :
    (waiting fails (round size fails queue)).length ≤ (waiting fails queue).length - 1 := by
  rw [waitingRound]
  by_cases none_ : waiting fails queue = []
  · have split := @waitingSplit α size fails queue
    rw [none_] at split ⊢
    simp only [List.length_nil] at split ⊢
    omega
  · obtain ⟨x,mem,succeeds⟩ := firstTaken room none_
    have some_ := List.length_pos_of_mem (memWaiting.mpr ⟨mem,succeeds⟩)
    have split := @waitingSplit α size fails queue
    omega

theorem roundsDrain (n : Nat) {queue : List α} (room : Room size fails queue) :
    (waiting fails (rounds size fails n queue)).length ≤ (waiting fails queue).length - n := by
  induction n generalizing queue with
  | zero => exact Nat.le_refl _
  | succ n ih =>
    have next := ih (room.part (@roundSublist α size fails queue))
    have first := roundDrains room
    rw [rounds]
    omega

theorem roundBehind {before after : List α} {x : α} (full : size ≤ (before.filter fails).length) :
    ∃ before' after', round size fails (before ++ x :: after) = before' ++ x :: after' ∧
      size ≤ (before'.filter fails).length := by
  have long := le_trans full (List.length_filter_le _ _)
  refine ⟨(before.take size).filter fails ++ before.drop size,after,?_,?_⟩
  · rw [round,List.take_append_of_le_length long,List.drop_append_of_le_length long,List.append_assoc]
  · have same : ((before.take size).filter fails ++ before.drop size).filter fails = before.filter fails := by
      rw [List.filter_append,List.filter_filter]
      simp only [Bool.and_self]
      rw [← List.filter_append,List.take_append_drop]
    rw [same]
    exact full

theorem roundsBehind (n : Nat) {before after : List α} {x : α} (full : size ≤ (before.filter fails).length) :
    x ∈ rounds size fails n (before ++ x :: after) := by
  induction n generalizing before after with
  | zero => simp [rounds]
  | succ n ih =>
    obtain ⟨before',after',is,full'⟩ := @roundBehind α size fails before after x full
    rw [rounds,is]
    exact ih full'

/-- Some number of rounds leaves nothing that would succeed, if and only if there is room for all of it. -/
theorem drainsIff (queue : List α) : (∃ n, waiting fails (rounds size fails n queue) = []) ↔ Room size fails queue := by
  constructor
  · rintro ⟨n,none_⟩ before x after is succeeds
    by_contra full
    have mem := @roundsBehind α size fails n before after x (Nat.le_of_not_lt full)
    rw [← is] at mem
    have waits := memWaiting.mpr ⟨mem,succeeds⟩
    rw [none_] at waits
    cases waits
  · intro room
    refine ⟨(waiting fails queue).length,List.eq_nil_of_length_eq_zero ?_⟩
    have drained := roundsDrain (waiting fails queue).length room
    omega

section
variable (r : α → α → Prop) [DecidableRel r] [IsTrans α r] (p : α → Bool)

omit [IsTrans α r] in
theorem insertFirst {a : α} {xs : List α} (least : ∀ x ∈ xs, r a x) : xs.orderedInsert r a = a :: xs := by
  cases xs with
  | nil => rfl
  | cons x rest => exact List.orderedInsert_cons_of_le r rest (least x List.mem_cons_self)

theorem filterOrderedInsert (a : α) {xs : List α} (sorted : xs.Pairwise r) :
    (xs.orderedInsert r a).filter p = if p a then (xs.filter p).orderedInsert r a else xs.filter p := by
  induction xs with
  | nil => cases is : p a <;> simp [is]
  | cons x rest ih =>
    obtain ⟨least,others⟩ := List.pairwise_cons.mp sorted
    by_cases le : r a x
    · rw [List.orderedInsert_cons_of_le r rest le,List.filter_cons]
      split
      · refine (insertFirst r (fun y mem => ?_)).symm
        rcases List.mem_cons.mp (List.mem_filter.mp mem).1 with rfl | later
        · exact le
        · exact Trans.trans le (least y later)
      · rfl
    · rw [List.orderedInsert_of_not_le r rest le,List.filter_cons,ih others,List.filter_cons]
      cases kept : p x <;> cases is : p a <;> simp [List.orderedInsert_of_not_le r _ le]

theorem filterInsertionSort [Std.Total r] (xs : List α) :
    (xs.insertionSort r).filter p = (xs.filter p).insertionSort r := by
  induction xs with
  | nil => rfl
  | cons x rest ih =>
    rw [List.insertionSort_cons,filterOrderedInsert r p x (List.pairwise_insertionSort r rest),ih,List.filter_cons]
    split
    · rw [List.insertionSort_cons]
    · rfl

end

end FamilyPlatform.Batches
