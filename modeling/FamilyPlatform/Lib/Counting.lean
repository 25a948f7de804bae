import Mathlib.Data.Int.Interval
import Mathlib.Data.List.Nodup

/-! How long a list can be: no longer than the interval that its distinct numbers are in,
nor, if it comes in blocks, than the blocks that matter together. -/
namespace FamilyPlatform.Counting

theorem distinctFew {xs : List Int} {low : Int} {n : Nat} (distinct : xs.Nodup)
    (inside : ∀ x ∈ xs, low ≤ x ∧ x < low + n) : xs.length ≤ n := by
  have sub : xs.toFinset ⊆ Finset.Ico low (low + n) := by
    intro x mem
    exact Finset.mem_Ico.mpr (inside x (List.mem_toFinset.mp mem))
  have few := Finset.card_le_card sub
  rw [List.toFinset_card_of_nodup distinct,Int.card_Ico] at few
  omega

theorem distinctKeys {α : Type} {xs : List α} (key : α → Int) {low : Int} {n : Nat} (distinct : (xs.map key).Nodup)
    (inside : ∀ x ∈ xs, low ≤ key x ∧ key x < low + n) : xs.length ≤ n := by
  rw [← List.length_map (f := key)]
  refine @distinctFew _ low _ distinct (fun y mem => ?_)
  obtain ⟨x,source,rfl⟩ := List.mem_map.mp mem
  exact inside x source

theorem blocksFew {α : Type} {f : Nat → List α} {chosen : α → Bool} {perBlock blocks : Nat}
    (few : ∀ k, (f k).length ≤ perBlock)
    (near : ∀ k k', ∀ x ∈ f k, ∀ y ∈ f k', chosen x → chosen y → k' < k + blocks) (ks : List Nat) (distinct : ks.Nodup) :
    ((ks.flatMap f).filter chosen).length ≤ blocks * perBlock := by
  have most : ∀ used : List Nat, ((used.flatMap f).filter chosen).length ≤
      (used.filter (fun k => (f k).any chosen)).length * perBlock := by
    intro used
    induction used with
    | nil => simp
    | cons k rest ih =>
      rw [List.flatMap_cons,List.filter_append,List.length_append]
      by_cases any : (f k).any chosen
      · rw [List.filter_cons_of_pos (p := fun k => (f k).any chosen) any,List.length_cons,Nat.succ_mul,Nat.add_comm]
        exact Nat.add_le_add ih (le_trans (List.length_filter_le _ _) (few k))
      · have none_ : (f k).filter chosen = [] := by
          refine List.filter_eq_nil_iff.mpr (fun x mem is => any (List.any_eq_true.mpr ⟨x,mem,is⟩))
        rw [List.filter_cons_of_neg (p := fun k => (f k).any chosen) any,none_,List.length_nil,Nat.zero_add]
        exact ih
  refine le_trans (most ks) (Nat.mul_le_mul_right _ ?_)
  cases min : (ks.filter (fun k => (f k).any chosen)).min? with
  | none => simp [List.min?_eq_none_iff.mp min]
  | some first =>
    obtain ⟨source,least⟩ := List.min?_eq_some_iff.mp min
    have anyOf : ∀ k ∈ ks.filter (fun k => (f k).any chosen), ∃ x ∈ f k, chosen x := fun k mem =>
      List.any_eq_true.mp (List.mem_filter.mp mem).2
    obtain ⟨x,there,is⟩ := anyOf first source
    refine @distinctKeys _ _ (fun k : Nat => (k : Int)) first _ ?_ (fun k mem => ?_)
    · exact (distinct.filter _).map (fun a b same => by simpa using same)
    · obtain ⟨y,there',is'⟩ := anyOf k mem
      have := least k mem
      have := near first k x there y there' is is'
      omega

end FamilyPlatform.Counting
