import FamilyPlatform.Kernel.RecurrenceRule

/-! Numbers as they are read, rounded and printed: below 10^21 the digits that are
printed read back the same, and from there on they do not. -/
namespace FamilyPlatform
namespace JsNumber

theorem nearestSmall {n : Nat} (small : n < 2 ^ 53) : nearest n = .finite n := if_pos small

structure Rounded (x unit q : Nat) : Prop where
  low : 2 ^ 52 ≤ q
  high : q ≤ 2 ^ 53
  below : 2 * (q * unit) ≤ 2 * x + unit
  above : 2 * x ≤ 2 * (q * unit) + unit
  even : 2 * x = 2 * (q * unit) + unit → q % 2 = 0

theorem nearestCases {x : Nat} (large : 2 ^ 53 ≤ x) : 53 ≤ x.log2 ∧ ∃ q, Rounded x (2 ^ (x.log2 - 52)) q ∧
    nearest x = if q * 2 ^ (x.log2 - 52) < 2 ^ 1024 then .finite (q * 2 ^ (x.log2 - 52)) else .infinity := by
  have positive : x ≠ 0 := by omega
  have log : 53 ≤ x.log2 := (Nat.le_log2 positive).mpr large
  have power : 2 ^ x.log2 = 2 ^ 52 * 2 ^ (x.log2 - 52) := by rw [← Nat.pow_add]; congr 1; omega
  have unit : 0 < 2 ^ (x.log2 - 52) := Nat.two_pow_pos _
  have low : 2 ^ 52 ≤ x / 2 ^ (x.log2 - 52) := by
    rw [Nat.le_div_iff_mul_le unit,← power]
    exact Nat.log2_self_le positive
  have high : x / 2 ^ (x.log2 - 52) < 2 ^ 53 := by
    rw [Nat.div_lt_iff_lt_mul unit,show 2 ^ 53 = 2 ^ 52 * 2 by rfl,Nat.mul_right_comm,← power,← Nat.pow_succ]
    exact Nat.lt_log2_self
  refine ⟨log,_,?_,if_neg (Nat.not_lt.mpr large)⟩
  have parts := Nat.div_add_mod x (2 ^ (x.log2 - 52))
  have rest := Nat.mod_lt x unit
  rw [Nat.mul_comm] at parts
  generalize 2 ^ (x.log2 - 52) = u at *
  generalize x / u = whole at *
  generalize x % u = r at *
  have step : (whole + 1) * u = whole * u + u := by ring
  by_cases up : (decide (u < 2 * r) || decide (2 * r = u) && decide (whole % 2 = 1)) = true
  · rw [if_pos up]
    simp only [Bool.or_eq_true,Bool.and_eq_true,decide_eq_true_eq] at up
    constructor <;> omega
  · rw [if_neg up,Nat.add_zero]
    simp only [Bool.or_eq_true,Bool.and_eq_true,decide_eq_true_eq] at up
    constructor <;> omega

theorem nearestSource {x n : Nat} (large : 2 ^ 53 ≤ x) (read : nearest x = .finite n) :
    n < 2 ^ 1024 ∧ 53 ≤ x.log2 ∧ ∃ q, n = q * 2 ^ (x.log2 - 52) ∧ Rounded x (2 ^ (x.log2 - 52)) q := by
  obtain ⟨log,q,rounded,is⟩ := nearestCases large
  rw [is] at read
  generalize 2 ^ 1024 = limit at *
  split at read
  · rename_i inside
    exact JsNumber.finite.inj read ▸ ⟨inside,log,q,rfl,rounded⟩
  · cases read

theorem nearestExact {n : Nat} (large : 2 ^ 53 ≤ n) (whole : 2 ^ (n.log2 - 52) ∣ n) (inside : n < 2 ^ 1024) :
    nearest n = .finite n := by
  have unit : 0 < 2 ^ (n.log2 - 52) := Nat.two_pow_pos _
  have rest : n % 2 ^ (n.log2 - 52) = 0 := Nat.mod_eq_zero_of_dvd whole
  have same : n / 2 ^ (n.log2 - 52) * 2 ^ (n.log2 - 52) = n := Nat.div_mul_cancel whole
  simp only [nearest,if_neg (Nat.not_lt.mpr large),rest]
  generalize 2 ^ 1024 = limit at *
  generalize 2 ^ (n.log2 - 52) = u at *
  have down : (decide (u < 2 * 0) || decide (2 * 0 = u) && decide (n / u % 2 = 1)) = false := by
    simp [show ¬ 0 = u by omega]
  rw [down]
  simp only [Bool.false_eq_true,if_false,Nat.add_zero,same,if_pos inside]

theorem nearestAgain {x n : Nat} (read : nearest x = .finite n) : nearest n = .finite n := by
  by_cases large : 2 ^ 53 ≤ x
  · obtain ⟨inside,log,q,rfl,low,high,-⟩ := nearestSource large read
    obtain ⟨e,is⟩ : ∃ e, x.log2 - 52 = e + 1 := ⟨x.log2 - 53,by omega⟩
    rw [is] at inside ⊢
    have unit : 0 < 2 ^ (e + 1) := Nat.two_pow_pos _
    have least : 2 ^ 53 ≤ q * 2 ^ (e + 1) := by
      have double : q * 2 ^ (e + 1) = q * 2 ^ e * 2 := by rw [Nat.pow_succ,Nat.mul_assoc]
      have := Nat.mul_le_mul low (Nat.one_le_two_pow (n := e))
      omega
    rcases Nat.lt_or_eq_of_le high with less | rfl
    · have log' : (q * 2 ^ (e + 1)).log2 = 52 + (e + 1) := by
        rw [Nat.log2_eq_iff (by omega),Nat.pow_add,show 52 + (e + 1) + 1 = 53 + (e + 1) by omega,Nat.pow_add 2 53]
        exact ⟨Nat.mul_le_mul_right _ low,Nat.mul_lt_mul_of_pos_right less unit⟩
      exact nearestExact least (by rw [log',Nat.add_sub_cancel_left]; exact Nat.dvd_mul_left _ _) inside
    · rw [← Nat.pow_add] at least inside ⊢
      exact nearestExact least (by rw [Nat.log2_two_pow]; exact Nat.pow_dvd_pow 2 (by omega)) inside
  · rw [nearestSmall (by omega)] at read
    obtain rfl := JsNumber.finite.inj read
    exact nearestSmall (by omega)

/- Just below 10^21 a number is rounded to a multiple of 2^17, and 10^21 is an even one. -/
theorem nearestBelow {x n : Nat} (read : nearest x = .finite n) : n < 10 ^ 21 ↔ x < 10 ^ 21 - 65536 := by
  by_cases large : 2 ^ 53 ≤ x
  · obtain ⟨-,log,q,rfl,rounded⟩ := nearestSource large read
    have low := rounded.low
    have high := rounded.high
    have least := Nat.log2_self_le (show x ≠ 0 by omega)
    have most := @Nat.lt_log2_self x
    rcases Nat.lt_trichotomy x.log2 69 with less | same | more
    · have unit := Nat.pow_le_pow_right (show 0 < 2 by decide) (show x.log2 - 52 ≤ 16 by omega)
      have product := Nat.mul_le_mul high unit
      have := Nat.pow_le_pow_right (show 0 < 2 by decide) (show x.log2 + 1 ≤ 69 by omega)
      omega
    · rw [same] at rounded ⊢
      have below := rounded.below
      have above := rounded.above
      have even := rounded.even
      norm_num at below above even ⊢
      omega
    · have unit := Nat.pow_le_pow_right (show 0 < 2 by decide) (show 18 ≤ x.log2 - 52 by omega)
      have product := Nat.mul_le_mul low unit
      have := Nat.pow_le_pow_right (show 0 < 2 by decide) (show 70 ≤ x.log2 by omega)
      omega
  · rw [nearestSmall (by omega)] at read
    obtain rfl := JsNumber.finite.inj read
    omega

theorem nearestInfinity {x : Nat} (read : nearest x = .infinity) : 10 ^ 21 - 65536 ≤ x := by
  by_cases large : 2 ^ 53 ≤ x
  · obtain ⟨log,q,rounded,is⟩ := nearestCases large
    rw [is] at read
    have high := rounded.high
    have least := Nat.log2_self_le (show x ≠ 0 by omega)
    by_contra less
    have small : x.log2 ≤ 69 := by
      by_contra more
      have := Nat.pow_le_pow_right (show 0 < 2 by decide) (show 70 ≤ x.log2 by omega)
      omega
    have unit := Nat.pow_le_pow_right (show 0 < 2 by decide) (show x.log2 - 52 ≤ 17 by omega)
    have product := Nat.mul_le_mul high unit
    generalize top : 1024 = exponent at read
    have limit := Nat.pow_lt_pow_right (show 1 < 2 by decide) (show 70 < exponent by omega)
    generalize 2 ^ exponent = huge at *
    rw [if_pos (by omega)] at read
    cases read
  · rw [nearestSmall (by omega)] at read
    cases read

theorem writtenSource {n length width m : Nat} (found : written n length width = some m) :
    nearest (m * 10 ^ (length - width)) = .finite n ∧
      (m = n / 10 ^ (length - width) ∨ m = n / 10 ^ (length - width) + 1) := by
  simp only [written] at found
  have reads := List.find?_some found
  have mem := List.mem_of_find?_eq_some found
  refine ⟨by simpa using reads,?_⟩
  split at mem <;> simp at mem <;> omega

theorem writtenWhole {n length : Nat} (exact_ : nearest n = .finite n) : written n length length = some n := by
  simp [written,exact_,Nat.mod_one]

theorem printedWidth {n : Nat} (exact_ : nearest n = .finite n) : ∃ width m, 1 ≤ width ∧
    width ≤ (Nat.repr n).length ∧ written n (Nat.repr n).length width = some m ∧
      ((List.range' 1 17).find? (fun width => (written n (Nat.repr n).length width).isSome)).getD
        (Nat.repr n).length = width := by
  have positive := Nat.length_repr_pos (n := n)
  generalize (Nat.repr n).length = length at *
  cases found : (List.range' 1 17).find? (fun width => (written n length width).isSome) with
  | none => exact ⟨length,n,positive,Nat.le_refl _,writtenWhole exact_,rfl⟩
  | some width =>
    obtain ⟨is,mem,first⟩ := List.find?_range'_eq_some.mp found
    obtain ⟨m,written⟩ := Option.isSome_iff_exists.mp is
    refine ⟨width,m,by simp at mem; omega,?_,written,rfl⟩
    by_contra longer
    have := first length positive (by omega)
    rw [writtenWhole exact_] at this
    cases this

theorem digitsLength {m k : Nat} (positive : 0 < k) : (Nat.repr m).length ≤ k ↔ m < 10 ^ k :=
  Nat.length_repr_le_iff positive

theorem printedPoint {n width m : Nat} (one : 1 ≤ n) (positive : 1 ≤ width) (le : width ≤ (Nat.repr n).length)
    (found : written n (Nat.repr n).length width = some m) :
    (Nat.repr n).length - width + (Nat.repr m).length ≤ 21 ↔ n < 10 ^ 21 := by
  obtain ⟨reads,cases⟩ := writtenSource found
  have most : n < 10 ^ (Nat.repr n).length := (digitsLength Nat.length_repr_pos).mp (Nat.le_refl _)
  have least : 10 ^ ((Nat.repr n).length - 1) ≤ n := by
    by_contra less
    rcases Nat.eq_zero_or_pos ((Nat.repr n).length - 1) with zero | more
    · rw [zero] at less
      omega
    · have := (digitsLength more).mpr (Nat.not_le.mp less)
      omega
  have short : (Nat.repr n).length ≤ 21 ↔ n < 10 ^ 21 := digitsLength (by decide)
  generalize (Nat.repr n).length = length at *
  have unit : 0 < 10 ^ (length - width) := Nat.pow_pos (by decide)
  have whole : 10 ^ width * 10 ^ (length - width) = 10 ^ length := by rw [← Nat.pow_add]; congr 1; omega
  have high : n / 10 ^ (length - width) < 10 ^ width := by
    rw [Nat.div_lt_iff_lt_mul unit,whole]
    exact most
  have low : 10 ^ (width - 1) ≤ n / 10 ^ (length - width) := by
    rw [Nat.le_div_iff_mul_le unit,← Nat.pow_add,show width - 1 + (length - width) = length - 1 by omega]
    exact least
  have digits : width ≤ (Nat.repr m).length := by
    by_contra less
    have := (digitsLength (show 0 < width - 1 by have := Nat.length_repr_pos (n := m); omega)).mp
      (show (Nat.repr m).length ≤ width - 1 by omega)
    omega
  rw [← short]
  constructor
  · omega
  · intro le'
    rcases Nat.lt_or_ge m (10 ^ width) with less | more
    · have := (digitsLength positive).mpr less
      omega
    · -- All nines are rounded up to a power of ten, which is never 10^21.
      have power : m = 10 ^ width := by omega
      have next := (digitsLength (Nat.succ_pos width)).mpr
        (show m < 10 ^ (width + 1) from power ▸ Nat.pow_lt_pow_right (by decide) (Nat.lt_succ_self width))
      rcases Nat.lt_or_eq_of_le le' with less | rfl
      · omega
      · rw [power,whole] at reads
        have exact_ : nearest (10 ^ 21) = .finite (10 ^ 21) := by decide +kernel
        have := JsNumber.finite.inj (exact_.symm.trans reads)
        omega

theorem toTextDigits {n : Nat} (exact_ : nearest n = .finite n) (one : 1 ≤ n) (small : n < 10 ^ 21) :
    ∃ m zeros, (toText (.finite n)).toList = Nat.toDigits 10 m ++ List.replicate zeros '0' ∧
      nearest (m * 10 ^ zeros) = .finite n := by
  obtain ⟨width,m,positive,le,found,is⟩ := printedWidth exact_
  have point := (printedPoint one positive le found).mpr small
  refine ⟨m,(Nat.repr n).length - width,?_,(writtenSource found).1⟩
  simp only [toText,is,found,Option.getD_some,if_pos point]
  simp

theorem toTextExponent {n : Nat} (exact_ : nearest n = .finite n) (large : 10 ^ 21 ≤ n) :
    'e' ∈ (toText (.finite n)).toList := by
  obtain ⟨width,m,positive,le,found,is⟩ := printedWidth exact_
  have point : ¬ (Nat.repr n).length - width + (Nat.repr m).length ≤ 21 := fun short =>
    absurd ((printedPoint (by omega) positive le found).mp short) (by omega)
  simp only [toText,is,found,Option.getD_some,if_neg point]
  simp

end JsNumber

namespace RecurrenceRule
open JsNumber

theorem digitsFold (cs : List Char) (n : Nat) :
    cs.foldl (fun n c => 10 * n + (c.toNat - 48)) n = Nat.ofDigitChars 10 cs n := rfl

theorem numberDigits {n : Nat} (exact_ : nearest n = .finite n) (one : 1 ≤ n) (small : n < 10 ^ 21) :
    (JsNumber.toText (.finite n)).toList.all isDigit = true := by
  obtain ⟨m,zeros,text,-⟩ := toTextDigits exact_ one small
  rw [text,List.all_eq_true]
  intro c mem
  rcases List.mem_append.mp mem with digit | zero
  · exact Nat.isDigit_of_mem_toDigits (by decide) (by decide) digit
  · rw [List.eq_of_mem_replicate zero]
    rfl

theorem positiveNumber {n : Nat} (exact_ : nearest n = .finite n) (one : 1 ≤ n) (small : n < 10 ^ 21) :
    parsePositiveInteger (JsNumber.toText (.finite n)) = some (.finite n) := by
  have digits := numberDigits exact_ one small
  obtain ⟨m,zeros,text,reads⟩ := toTextDigits exact_ one small
  have value : ofDigits (JsNumber.toText (.finite n)).toList = .finite n := by
    rw [ofDigits,text,digitsFold,Nat.ofDigitChars_append,Nat.ofDigitChars_ten_toDigits,
      Nat.ofDigitChars_replicate_zero,Nat.mul_comm,reads]
  have some_ : (JsNumber.toText (.finite n)).toList ≠ [] := by simp [text]
  simp [parsePositiveInteger,value,digits,some_,atLeastOne,one]

end RecurrenceRule
end FamilyPlatform
