import Mathlib.Data.List.Basic

/-! The days of an interval that fall on one day of the week. Days are integers; two
fall on the same day of the week when they differ by a multiple of seven. -/
namespace FamilyPlatform.Weeks

theorem filterRangeAt {p : Nat → Bool} {length index element : Nat} :
    ((List.range length).filter p)[index]? = some element ↔
      element < length ∧ p element ∧ ((List.range element).filter p).length = index := by
  induction length with
  | zero => simp
  | succ n ih =>
    rw [List.range_succ,List.filter_append]
    have whole : element < n + 1 ↔ element < n ∨ element = n := by omega
    rcases Nat.lt_or_ge index ((List.range n).filter p).length with before | after
    · rw [List.getElem?_append_left before,ih,whole]
      constructor
      · rintro ⟨lt,rest⟩
        exact ⟨.inl lt,rest⟩
      · rintro ⟨lt | rfl,rest⟩
        · exact ⟨lt,rest⟩
        · exact absurd rest.2 (by omega)
    · rw [List.getElem?_append_right after]
      by_cases kept : p n
      · rw [List.filter_cons_of_pos kept,List.filter_nil,List.getElem?_singleton]
        constructor
        · intro found
          split at found <;> cases found
          exact ⟨Nat.lt_succ_self _,kept,by omega⟩
        · rintro ⟨lt,holds,place⟩
          rcases whole.mp lt with old | rfl
          · have there := ih.mpr ⟨old,holds,place⟩
            have := (List.getElem?_eq_some_iff.mp there).1
            omega
          · rw [if_pos (by omega)]
      · rw [List.filter_cons_of_neg kept,List.filter_nil]
        constructor
        · intro found
          cases found
        · rintro ⟨lt,holds,place⟩
          rcases whole.mp lt with old | rfl
          · have there := ih.mpr ⟨old,holds,place⟩
            have := (List.getElem?_eq_some_iff.mp there).1
            omega
          · exact absurd holds kept

section
variable {α : Type} {f : α → Int} {xs : List α} {x : α} (ordered : xs.Pairwise (fun a b => f a < f b))
include ordered

theorem placeInOrder {i : Nat} : xs[i]? = some x ↔ x ∈ xs ∧ (xs.filter (fun y => decide (f y < f x))).length = i := by
  induction xs generalizing i with
  | nil => simp
  | cons a rest ih =>
    obtain ⟨first,others⟩ := List.pairwise_cons.mp ordered
    have head : ((a :: rest).filter (fun y => decide (f y < f a))).length = 0 := by
      refine List.length_eq_zero_iff.mpr (List.filter_eq_nil_iff.mpr (fun y mem => ?_))
      rcases List.mem_cons.mp mem with rfl | later
      · simp
      · simpa using Int.le_of_lt (first y later)
    have tail : x ∈ rest → ((a :: rest).filter (fun y => decide (f y < f x))).length =
        (rest.filter (fun y => decide (f y < f x))).length + 1 := fun mem => by
      rw [List.filter_cons_of_pos (by simpa using first x mem),List.length_cons]
    cases i with
    | zero =>
      simp only [List.getElem?_cons_zero,Option.some.injEq]
      constructor
      · rintro rfl
        exact ⟨List.mem_cons_self,head⟩
      · rintro ⟨mem,none_⟩
        rcases List.mem_cons.mp mem with rfl | later
        · rfl
        · have := tail later
          omega
    | succ i =>
      rw [List.getElem?_cons_succ,ih others]
      constructor
      · rintro ⟨mem,place⟩
        exact ⟨List.mem_cons_of_mem _ mem,by rw [tail mem,place]⟩
      · rintro ⟨mem,place⟩
        rcases List.mem_cons.mp mem with rfl | later
        · omega
        · exact ⟨later,by have := tail later; omega⟩

theorem beforeAndAfter (mem : x ∈ xs) : (xs.filter (fun y => decide (f y < f x))).length +
    (xs.filter (fun y => decide (f x < f y))).length + 1 = xs.length := by
  induction xs with
  | nil => cases mem
  | cons a rest ih =>
    obtain ⟨first,others⟩ := List.pairwise_cons.mp ordered
    rcases List.mem_cons.mp mem with rfl | later
    · have none_ : rest.filter (fun y => decide (f y < f x)) = [] :=
        List.filter_eq_nil_iff.mpr (fun y source => by simpa using Int.le_of_lt (first y source))
      have all : rest.filter (fun y => decide (f x < f y)) = rest :=
        List.filter_eq_self.mpr (fun y source => by simpa using first y source)
      rw [List.filter_cons_of_neg (by simp),List.filter_cons_of_neg (by simp),none_,all]
      simp
    · have less := first x later
      rw [List.filter_cons_of_pos (by simpa using less),List.filter_cons_of_neg (by simpa using Int.le_of_lt less)]
      have := ih others later
      simp only [List.length_cons]
      omega

end

variable (first residue : Int)

def falling (length : Nat) : List Nat :=
  (List.range length).filter (fun i => decide ((first + i) % 7 = residue))

theorem fallingLength (low : 0 ≤ residue) (high : residue < 7) (length : Nat) :
    ((falling first residue length).length : Int) = (length + 6 - (residue - first) % 7) / 7 := by
  induction length with
  | zero =>
    simp only [falling,List.range_zero,List.filter_nil,List.length_nil]
    omega
  | succ n ih =>
    unfold falling at ih
    rw [falling,List.range_succ,List.filter_append,List.length_append]
    by_cases at_ : (first + n) % 7 = residue
    · simp only [at_,decide_true,List.filter_cons_of_pos,List.filter_nil,List.length_singleton]
      push_cast
      omega
    · simp only [at_,decide_false,Bool.false_eq_true,not_false_eq_true,List.filter_cons_of_neg,
        List.filter_nil,List.length_nil]
      push_cast
      omega

def Nth (first last n day : Int) : Prop :=
  (0 < n ∧ n = (day - first) / 7 + 1) ∨ (n < 0 ∧ -n = (last - day) / 7 + 1)

instance (first last n day : Int) : Decidable (Nth first last n day) := by unfold Nth; infer_instance

/-- Counting from either end of the list of those days gives the `n`-th. -/
theorem fallingNth (low : 0 ≤ residue) (high : residue < 7) {length i : Nat} {n index : Int}
    (counted : index = if 0 < n then n - 1 else (falling first residue length).length + n) :
    (¬ index < 0 ∧ (falling first residue length)[index.toNat]? = some i) ↔
      i < length ∧ (first + i) % 7 = residue ∧ Nth first (first + length - 1) n (first + i) := by
  have before := fallingLength first residue low high i
  have all := fallingLength first residue low high length
  unfold falling at before
  rw [falling,filterRangeAt]
  unfold falling at counted all
  simp only [decide_eq_true_eq]
  constructor
  · rintro ⟨positive,lt,at_,place⟩
    refine ⟨lt,at_,?_⟩
    unfold Nth
    split at counted <;> omega
  · rintro ⟨lt,at_,nth⟩
    unfold Nth at nth
    refine ⟨?_,lt,at_,?_⟩
    · split at counted <;> omega
    · split at counted <;> omega

end FamilyPlatform.Weeks
