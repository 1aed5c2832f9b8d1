import Mathlib.Data.Int.ModEq
import PiDigits.Proofs.CountedSums

/-!
Comparisons by counting, for every pair of words. They look at the sign of a difference that may
wrap, so they are those of words as long as the difference is a word itself.
-/

namespace PiDigits

namespace Word

theorem ofBool_inj {a b : Bool} : ofBool a = ofBool b ↔ a = b := by
  cases a <;> cases b <;> decide

theorem ofBool_eq_one_iff {b : Bool} : ofBool b = 1 ↔ b = true := ofBool_inj (b := true)

end Word

namespace Counting

variable {x y : Word}

theorem toInt_subtract_wraps (hy : y ≠ Int64.minValue) :
    (-2 ^ 64 < x.toInt - y.toInt ∧ x.toInt - y.toInt < -2 ^ 63 ∧
      (subtract x y).toInt = x.toInt - y.toInt + 2 ^ 64) ∨
    (-2 ^ 63 ≤ x.toInt - y.toInt ∧ x.toInt - y.toInt < 2 ^ 63 ∧
      (subtract x y).toInt = x.toInt - y.toInt) ∨
    (2 ^ 63 ≤ x.toInt - y.toInt ∧ x.toInt - y.toInt < 2 ^ 64 - 1 ∧
      (subtract x y).toInt = x.toInt - y.toInt - 2 ^ 64) := by
  rw [toInt_subtract, if_neg hy, Int.bmod_def]
  rw [Ne, Word.eq_minValue_iff] at hy
  have := x.le_toInt
  have := x.toInt_lt
  have := y.le_toInt
  have := y.toInt_lt
  split <;> omega

theorem isPositive_eq (x : Word) : isPositive x = decide (0 < x.toInt) := by
  rw [isPositive, decide_eq_decide]
  exact Word.pos_iff

theorem isPositive_negate_eq (x : Word) :
    isPositive (negate x) = decide (-2 ^ 63 < x.toInt ∧ x.toInt < 0) := by
  have := x.le_toInt
  rw [isPositive_negate, decide_eq_decide, Ne, Word.eq_minValue_iff, Word.lt_zero_iff]
  omega

theorem equals_eq (x y : Word) :
    equals x y =
      Word.ofBool (decide ((subtract x y).toInt = 0 ∨ (subtract x y).toInt = -2 ^ 63)) := by
  have := (subtract x y).le_toInt
  rw [equals, isPositive_eq, isPositive_negate_eq, Word.ofBool_inj, Bool.eq_iff_iff]
  simp only [Bool.not_eq_true', Bool.or_eq_false_iff, decide_eq_false_iff_not, decide_eq_true_eq]
  omega

theorem greaterThan_eq (x y : Word) :
    greaterThan x y = Word.ofBool (decide (0 < (subtract x y).toInt)) := by
  rw [greaterThan, isPositive_eq]

theorem isPositive_equals_zero (x : Word) :
    isPositive (equals x 0) = decide (x.toInt = 0 ∨ x.toInt = -2 ^ 63) := by
  have hzero : subtract x 0 = x := by rw [subtract_eq_sub (by decide), Int64.sub_zero]
  rw [equals_eq, hzero]
  cases decide (x.toInt = 0 ∨ x.toInt = -2 ^ 63) <;> rfl

theorem lessThan_eq (x y : Word) :
    lessThan x y =
      Word.ofBool (decide (-2 ^ 63 < (subtract x y).toInt ∧ (subtract x y).toInt < 0)) := by
  have := (subtract x y).le_toInt
  rw [lessThan, isPositive_eq, isPositive_equals_zero, Word.ofBool_inj, Bool.eq_iff_iff]
  simp only [Bool.not_eq_true', Bool.or_eq_false_iff, decide_eq_false_iff_not, decide_eq_true_eq]
  omega

theorem comparisons_mem (x y : Word) :
    (equals x y, greaterThan x y, lessThan x y) ∈
      [((1, 0, 0) : Word × Word × Word), (0, 1, 0), (0, 0, 1)] := by
  have := (subtract x y).le_toInt
  rw [equals_eq, greaterThan_eq, lessThan_eq]
  generalize (subtract x y).toInt = d at *
  by_cases hpos : 0 < d
  · have hzero : ¬ (d = 0 ∨ d = -2 ^ 63) := by omega
    have hneg : ¬ (-2 ^ 63 < d ∧ d < 0) := by omega
    rw [decide_eq_true hpos, decide_eq_false hzero, decide_eq_false hneg]
    decide
  · rw [decide_eq_false hpos]
    by_cases hneg : -2 ^ 63 < d ∧ d < 0
    · have hzero : ¬ (d = 0 ∨ d = -2 ^ 63) := by omega
      rw [decide_eq_true hneg, decide_eq_false hzero]
      decide
    · have hzero : d = 0 ∨ d = -2 ^ 63 := by omega
      rw [decide_eq_false hneg, decide_eq_true hzero]
      decide

theorem equals_eq_one_iff : equals x y = 1 ↔ x.toInt ≡ y.toInt [ZMOD 2 ^ 63] := by
  rw [equals_eq, Word.ofBool_eq_one_iff, decide_eq_true_eq, Int.ModEq]
  by_cases hy : y = Int64.minValue
  · subst hy
    have := x.le_toInt
    have := x.toInt_lt
    rw [subtract_minValue, Int64.toInt_minValue]
    omega
  · have := toInt_subtract_wraps (x := x) hy
    omega

theorem equals_eq_native_iff (hy : y ≠ Int64.minValue) :
    equals x y = Word.ofBool (decide (x = y)) ↔ (x.toInt - y.toInt).natAbs ≠ 2 ^ 63 := by
  have := toInt_subtract_wraps (x := x) hy
  rw [equals_eq, Word.ofBool_inj, decide_eq_decide, ← Int64.toInt_inj]
  omega

theorem greaterThan_eq_native_iff (hy : y ≠ Int64.minValue) :
    greaterThan x y = Word.ofBool (decide (y < x)) ↔
      -2 ^ 63 ≤ x.toInt - y.toInt ∧ x.toInt - y.toInt < 2 ^ 63 := by
  have := toInt_subtract_wraps (x := x) hy
  rw [greaterThan_eq, Word.ofBool_inj, decide_eq_decide, Int64.lt_iff_toInt_lt]
  omega

theorem lessThan_eq_native_iff (hy : y ≠ Int64.minValue) :
    lessThan x y = Word.ofBool (decide (x < y)) ↔
      -2 ^ 63 < x.toInt - y.toInt ∧ x.toInt - y.toInt ≤ 2 ^ 63 := by
  have := toInt_subtract_wraps (x := x) hy
  rw [lessThan_eq, Word.ofBool_inj, decide_eq_decide, Int64.lt_iff_toInt_lt]
  omega

theorem comparisons_eq_native (hy : y ≠ Int64.minValue)
    (h : (x.toInt - y.toInt).natAbs < 2 ^ 63) :
    equals x y = Word.ofBool (decide (x = y)) ∧ greaterThan x y = Word.ofBool (decide (y < x)) ∧
      lessThan x y = Word.ofBool (decide (x < y)) := by
  refine ⟨?_, ?_, ?_⟩
  · apply (equals_eq_native_iff hy).2
    omega
  · apply (greaterThan_eq_native_iff hy).2
    omega
  · apply (lessThan_eq_native_iff hy).2
    omega

theorem comparisons_eq_native_iff {σ : Type} (memory : σ) (x y : Word) :
    (equals x y, greaterThan x y, lessThan x y) ∈
      [((1, 0, 0) : Word × Word × Word), (0, 1, 0), (0, 0, 1)] ∧
    (equals x y = 1 ↔ x.toInt ≡ y.toInt [ZMOD 2 ^ 63]) ∧
    (y ≠ Int64.minValue →
      (Machine.counting.equals x y memory ≠ Machine.native.equals x y memory ↔
        (x.toInt - y.toInt).natAbs = 2 ^ 63) ∧
      (Machine.counting.greaterThan x y memory = Machine.native.greaterThan x y memory ↔
        -2 ^ 63 ≤ x.toInt - y.toInt ∧ x.toInt - y.toInt < 2 ^ 63) ∧
      (Machine.counting.lessThan x y memory = Machine.native.lessThan x y memory ↔
        -2 ^ 63 < x.toInt - y.toInt ∧ x.toInt - y.toInt ≤ 2 ^ 63) ∧
      ((x.toInt - y.toInt).natAbs < 2 ^ 63 →
        Machine.counting.equals x y memory = Machine.native.equals x y memory ∧
        Machine.counting.greaterThan x y memory = Machine.native.greaterThan x y memory ∧
        Machine.counting.lessThan x y memory = Machine.native.lessThan x y memory)) ∧
    (y = Int64.minValue →
      (greaterThan x y = 1 ↔ 0 < x) ∧ (lessThan x y = 1 ↔ Int64.minValue < x ∧ x < 0)) := by
  refine ⟨comparisons_mem x y, equals_eq_one_iff, ?_, ?_⟩
  · intro hy
    refine ⟨?_, ?_, ?_, ?_⟩
    · apply (not_congr Work.pure_inj).trans
      rw [equals_eq_native_iff hy, not_not]
    · apply Work.pure_inj.trans
      exact greaterThan_eq_native_iff hy
    · apply Work.pure_inj.trans
      exact lessThan_eq_native_iff hy
    · intro h
      obtain ⟨hequals, hgreater, hless⟩ := comparisons_eq_native hy h
      exact ⟨Work.pure_inj.2 hequals, Work.pure_inj.2 hgreater, Work.pure_inj.2 hless⟩
  · rintro rfl
    rw [greaterThan_eq, lessThan_eq, subtract_minValue, Word.ofBool_eq_one_iff,
      Word.ofBool_eq_one_iff, decide_eq_true_eq, decide_eq_true_eq, Word.pos_iff,
      Int64.lt_iff_toInt_lt, Word.lt_zero_iff, Int64.toInt_minValue]
    exact ⟨Iff.rfl, Iff.rfl⟩

/-- Among them the greatest word and the one below zero, which differ by too much for a word. -/
theorem comparisons_eq_native_iff_maxValue :
    (equals Int64.maxValue (-1) = 1 ∧
      Machine.counting.equals Int64.maxValue (-1) () ≠
        Machine.native.equals Int64.maxValue (-1) () ∧
      Machine.counting.greaterThan Int64.maxValue (-1) () ≠
        Machine.native.greaterThan Int64.maxValue (-1) () ∧
      Machine.counting.lessThan Int64.maxValue (-1) () =
        Machine.native.lessThan Int64.maxValue (-1) ()) ∧
    Machine.counting.lessThan (-3) 5 () = Machine.native.lessThan (-3) 5 () ∧
    greaterThan (-4) Int64.minValue ≠ 1 ∧ lessThan (-4) Int64.minValue = 1 := by
  refine ⟨?_, ?_, ?_⟩
  · obtain ⟨-, hequal, hnative, -⟩ := comparisons_eq_native_iff () Int64.maxValue (-1)
    obtain ⟨hequals, hgreater, hless, -⟩ := hnative (by decide)
    exact ⟨hequal.2 (by decide), hequals.2 (by decide), mt hgreater.1 (by decide),
      hless.2 (by decide)⟩
  · obtain ⟨-, -, hnative, -⟩ := comparisons_eq_native_iff () (-3) 5
    exact ((hnative (by decide)).2.2.2 (by decide)).2.2
  · obtain ⟨-, -, -, hleast⟩ := comparisons_eq_native_iff () (-4) Int64.minValue
    obtain ⟨hgreater, hless⟩ := hleast rfl
    exact ⟨mt hgreater.1 (by decide), hless.2 (by decide)⟩

end Counting

end PiDigits
