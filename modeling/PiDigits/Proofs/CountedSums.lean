import Mathlib.Algebra.Ring.Int.Parity
import PiDigits.Machine

/-!
Sums, differences and products by counting, for every pair of words: the loops end, and the results
are those of wrapping words except at the least word, which counts as nothing.
-/

namespace PiDigits

namespace Word

theorem nonneg_iff {x : Word} : 0 ≤ x ↔ 0 ≤ x.toInt := by
  rw [Int64.le_iff_toInt_le, Int64.toInt_zero]

theorem pos_iff {x : Word} : 0 < x ↔ 0 < x.toInt := by
  rw [Int64.lt_iff_toInt_lt, Int64.toInt_zero]

theorem lt_zero_iff {x : Word} : x < 0 ↔ x.toInt < 0 := by
  rw [Int64.lt_iff_toInt_lt, Int64.toInt_zero]

theorem eq_minValue_iff {x : Word} : x = Int64.minValue ↔ x.toInt = -2 ^ 63 := by
  rw [← Int64.toInt_inj, Int64.toInt_minValue]

theorem ne_minValue {x : Word} (h : 0 ≤ x) : x ≠ Int64.minValue := by
  rintro rfl
  exact absurd h (by decide)

theorem ne_minValue_iff {x : Word} : x ≠ Int64.minValue ↔ x.toInt.natAbs < 2 ^ 63 := by
  have := x.le_toInt
  have := x.toInt_lt
  rw [Ne, eq_minValue_iff]
  omega

theorem neg_ne_minValue {x : Word} (h : x ≠ Int64.minValue) : -x ≠ Int64.minValue := by
  have hx := toInt_neg h
  rw [ne_minValue_iff] at *
  omega

theorem ofNat_nonneg {a : ℕ} (h : a < 2 ^ 63) : 0 ≤ Int64.ofNat a := by
  rw [nonneg_iff, Int64.toInt_ofNat_of_lt h]
  omega

theorem ofNat_inj {a b : ℕ} (ha : a < 2 ^ 63) (hb : b < 2 ^ 63) :
    Int64.ofNat a = Int64.ofNat b ↔ a = b := by
  rw [← Int64.toInt_inj, Int64.toInt_ofNat_of_lt ha, Int64.toInt_ofNat_of_lt hb]
  omega

end Word

theorem Work.pure_inj {σ α : Type} {memory : σ} {a b : α} :
    (pure a : Work σ α) memory = (pure b : Work σ α) memory ↔ a = b := by
  constructor
  · intro h
    cases h
    rfl
  · rintro rfl
    rfl

namespace Counting

inductive Looped {α : Type} (goesOn : α → Bool) (body : α → α) : ℕ → α → α → Prop
  | stop {s : α} : goesOn s = false → Looped goesOn body 0 s s
  | again {rounds : ℕ} {s t : α} : goesOn s = true → Looped goesOn body rounds (body s) t →
    Looped goesOn body (rounds + 1) s t

def stepUp (s : Word × Word) : Word × Word := (increment s.1, decrement s.2)

def stepDown (s : Word × Word) : Word × Word := (decrement s.1, increment s.2)

def AddedIn (rounds : ℕ) (x y sum : Word) : Prop :=
  ∃ up down between rest,
    Looped (fun s => isPositive s.2) stepUp up (x, y) between ∧
    Looped (fun s => isPositive (negate s.2)) stepDown down between (sum, rest) ∧
    rounds = up + down

/-- The word without its sign; the least word keeps it. -/
def size (x : Word) : Word := if isPositive (negate x) then negate x else x

def addOnce (y : Word) (s : Word × Word) : Word × Word := (decrement s.1, add s.2 y)

def MultipliedIn (rounds : ℕ) (x y product : Word) : Prop :=
  ∃ rest,
    Looped (fun s => isPositive s.1) (addOnce (if isPositive (negate x) then negate y else y))
      rounds (size x, 0) (rest, product)

/-- The rounds in which a word is counted to zero; the least word is not counted at all. -/
def turns (x : Word) : ℕ := if x = Int64.minValue then 0 else x.toInt.natAbs

theorem isPositive_negate (x : Word) :
    isPositive (negate x) = decide (x < 0 ∧ x ≠ Int64.minValue) := by
  rw [isPositive, negate, decide_eq_decide]
  exact Word.neg_pos_iff x

theorem not_isPositive_negate {x : Word} (h : 0 ≤ x) : isPositive (negate x) = false := by
  rw [isPositive_negate, decide_eq_false_iff_not]
  exact fun hn => Int64.not_lt.2 h hn.1

theorem climb_looped {x y : Word} (h : 0 ≤ y) :
    Looped (fun s => isPositive s.2) stepUp y.toInt.toNat (x, y) (climb x y, 0) := by
  fun_induction climb x y with
  | case1 x y hy ih =>
    have hy' := Word.pos_iff.1 hy
    have hs := Word.toInt_sub_one hy
    rw [show y.toInt.toNat = (y - 1).toInt.toNat + 1 by omega]
    refine .again (isPositive_iff.2 hy) ?_
    exact ih (Word.nonneg_iff.2 (by omega))
  | case2 x y hy =>
    have : y = 0 := Int64.le_antisymm (Int64.not_lt.1 hy) h
    subst this
    exact .stop rfl

theorem descend_looped {x y : Word} (h : y ≤ 0) (hm : y ≠ Int64.minValue) :
    Looped (fun s => isPositive (negate s.2)) stepDown (-y.toInt).toNat (x, y)
      (descend x y, 0) := by
  fun_induction descend x y with
  | case1 x y hy ih =>
    have hlt := ((Word.neg_pos_iff y).1 hy).1
    have hy' := Word.lt_zero_iff.1 hlt
    have hs := Word.toInt_add_one hlt
    have hb := y.le_toInt
    rw [show (-y.toInt).toNat = (-(y + 1).toInt).toNat + 1 by omega]
    refine .again (isPositive_iff.2 hy) ?_
    apply ih
    · rw [Int64.le_iff_toInt_le, hs, Int64.toInt_zero]
      omega
    · rw [Word.ne_minValue_iff] at *
      omega
  -- a word that is not positive either way is zero, as the least one is left out
  | case2 x y hy =>
    have : y = 0 := by
      refine Int64.le_antisymm h (Int64.not_lt.1 fun hlt => hy ?_)
      exact (Word.neg_pos_iff y).2 ⟨hlt, hm⟩
    subst this
    exact .stop (not_isPositive_negate (Int64.le_refl 0))

theorem add_addedIn (x y : Word) : AddedIn (turns y) x y (add x y) := by
  by_cases hpos : 0 < y
  · have hy := Int64.le_of_lt hpos
    have hy' := Word.pos_iff.1 hpos
    refine ⟨_, 0, _, 0, climb_looped hy, ?_, ?_⟩
    · rw [add, if_pos hpos]
      exact .stop (not_isPositive_negate (Int64.le_refl 0))
    · rw [turns, if_neg (Word.ne_minValue hy)]
      omega
  · have hfirst : isPositive y = false := decide_eq_false hpos
    have hy := Int64.not_lt.1 hpos
    have hy' : y.toInt ≤ 0 := by simpa using Int64.le_iff_toInt_le.1 hy
    by_cases hm : y = Int64.minValue
    · subst hm
      rw [add_minValue, turns, if_pos rfl]
      exact ⟨0, 0, _, _, .stop rfl, .stop rfl, rfl⟩
    · rw [add, if_neg hpos, turns, if_neg hm]
      exact ⟨0, _, _, _, .stop hfirst, descend_looped hy hm, by omega⟩

theorem turns_negate (y : Word) : turns (negate y) = turns y := by
  by_cases hy : y = Int64.minValue
  · subst hy
    rfl
  · rw [turns, turns, negate, if_neg (Word.neg_ne_minValue hy), if_neg hy, Word.toInt_neg hy,
      Int.natAbs_neg]

theorem subtract_addedIn (x y : Word) : AddedIn (turns y) x (negate y) (subtract x y) := by
  rw [← turns_negate]
  exact add_addedIn x (negate y)

theorem subtract_minValue (x : Word) : subtract x Int64.minValue = x := add_minValue x

theorem accumulate_looped {x y product : Word} (h : 0 ≤ x) :
    Looped (fun s => isPositive s.1) (addOnce y) x.toInt.toNat (x, product)
      (0, accumulate x y product) := by
  fun_induction accumulate x y product with
  | case1 x product hx ih =>
    have hx' := Word.pos_iff.1 hx
    have hs := Word.toInt_sub_one hx
    rw [show x.toInt.toNat = (x - 1).toInt.toNat + 1 by omega]
    refine .again (isPositive_iff.2 hx) ?_
    exact ih (Word.nonneg_iff.2 (by omega))
  | case2 x product hx =>
    have : x = 0 := Int64.le_antisymm (Int64.not_lt.1 hx) h
    subst this
    exact .stop rfl

theorem accumulate_eq {x y product : Word} (hx : 0 ≤ x) (hy : y ≠ Int64.minValue) :
    accumulate x y product = product + x * y := by
  fun_induction accumulate x y product with
  | case1 x product hpos ih =>
    have hx' := Word.pos_iff.1 hpos
    have hs : 0 ≤ x - 1 := Word.nonneg_iff.2 (by rw [Word.toInt_sub_one hpos]; omega)
    rw [ih hs, add_eq_add hy]
    grind
  | case2 x product hpos =>
    have : x = 0 := Int64.le_antisymm (Int64.not_lt.1 hpos) hx
    rw [this]
    grind

theorem accumulate_minValue (x product : Word) :
    accumulate x Int64.minValue product = product := by
  generalize hy : Int64.minValue = y
  -- each round adds the least word, which changes nothing
  fun_induction accumulate x y product with
  | case1 x product hpos ih =>
    subst hy
    rw [ih, add_minValue]
  | case2 x product hpos => rfl

theorem multiply_minValue_left (y : Word) : multiply Int64.minValue y = 0 := by
  have h : ¬ 0 < (Int64.minValue : Word) := by decide
  have h' : isPositive (negate Int64.minValue) = false := by decide
  rw [multiply, h', if_neg Bool.false_ne_true, accumulate, if_neg h]

theorem multiply_minValue_right (x : Word) : multiply x Int64.minValue = 0 := by
  have h : negate Int64.minValue = Int64.minValue := by decide
  rw [multiply, h, accumulate_minValue, accumulate_minValue, ite_self]

theorem multiply_eq_mul {x y : Word} (hx : x ≠ Int64.minValue) (hy : y ≠ Int64.minValue) :
    multiply x y = x * y := by
  by_cases hneg : x < 0
  · have hpos : 0 ≤ -x := Int64.le_of_lt ((Word.neg_pos_iff x).2 ⟨hneg, hx⟩)
    rw [multiply, isPositive_negate, decide_eq_true ⟨hneg, hx⟩, if_pos rfl, negate, negate,
      accumulate_eq hpos (Word.neg_ne_minValue hy)]
    grind
  · have hpos := Int64.not_lt.1 hneg
    rw [multiply, not_isPositive_negate hpos, if_neg Bool.false_ne_true, accumulate_eq hpos hy]
    grind

theorem toInt_size {x : Word} (h : x ≠ Int64.minValue) : (size x).toInt = x.toInt.natAbs := by
  rw [size, isPositive_negate]
  by_cases hneg : x < 0
  · have hx := Word.lt_zero_iff.1 hneg
    rw [decide_eq_true ⟨hneg, h⟩, if_pos rfl, negate, Word.toInt_neg h]
    omega
  · have hx := Word.nonneg_iff.1 (Int64.not_lt.1 hneg)
    rw [decide_eq_false fun hn => hneg hn.1, if_neg Bool.false_ne_true]
    omega

theorem multiply_eq_accumulate (x y : Word) :
    multiply x y = accumulate (size x) (if isPositive (negate x) then negate y else y) 0 := by
  rw [multiply, size]
  split <;> rfl

theorem multiply_multipliedIn (x y : Word) : MultipliedIn (turns x) x y (multiply x y) := by
  by_cases h : x = Int64.minValue
  · subst h
    rw [multiply_minValue_left, turns, if_pos rfl]
    exact ⟨_, .stop (by decide)⟩
  · have hs := toInt_size h
    have hturns : turns x = (size x).toInt.toNat := by
      rw [turns, if_neg h]
      omega
    rw [multiply_eq_accumulate, hturns]
    exact ⟨_, accumulate_looped (Word.nonneg_iff.2 (by omega))⟩

theorem minValue_mul_eq_zero_iff {x : Word} : Int64.minValue * x = 0 ↔ Even x.toInt := by
  rw [← Int64.toInt_inj, Int64.toInt_mul, Int64.toInt_zero, ← Int.dvd_iff_bmod_eq_zero,
    Int64.toInt_minValue, Int.even_iff]
  omega

theorem toInt_add (x y : Word) :
    (add x y).toInt =
      if y = Int64.minValue then x.toInt else (x.toInt + y.toInt).bmod (2 ^ 64) := by
  split
  · subst y
    rw [add_minValue]
  · rw [add_eq_add ‹_›, Int64.toInt_add]

theorem toInt_subtract (x y : Word) :
    (subtract x y).toInt =
      if y = Int64.minValue then x.toInt else (x.toInt - y.toInt).bmod (2 ^ 64) := by
  split
  · subst y
    rw [subtract_minValue]
  · rw [subtract_eq_sub ‹_›, Int64.toInt_sub]

theorem toInt_multiply (x y : Word) :
    (multiply x y).toInt =
      if x = Int64.minValue ∨ y = Int64.minValue then 0
        else (x.toInt * y.toInt).bmod (2 ^ 64) := by
  split
  next h =>
    rcases h with rfl | rfl
    · rw [multiply_minValue_left, Int64.toInt_zero]
    · rw [multiply_minValue_right, Int64.toInt_zero]
  next h =>
    rw [not_or] at h
    rw [multiply_eq_mul h.1 h.2, Int64.toInt_mul]

theorem add_eq_add_iff {x y : Word} : add x y = x + y ↔ y ≠ Int64.minValue := by
  constructor
  · rintro h rfl
    rw [add_minValue] at h
    have hzero : (Int64.minValue : Word) = 0 := by grind
    exact absurd hzero (by decide)
  · exact add_eq_add

theorem multiply_eq_mul_iff {x y : Word} :
    multiply x y = x * y ↔
      (x ≠ Int64.minValue ∧ y ≠ Int64.minValue) ∨ (x = Int64.minValue ∧ Even y.toInt) ∨
        (y = Int64.minValue ∧ Even x.toInt) := by
  by_cases hx : x = Int64.minValue
  · subst hx
    rw [multiply_minValue_left, eq_comm, minValue_mul_eq_zero_iff]
    constructor
    · intro hy
      exact .inr (.inl ⟨rfl, hy⟩)
    · rintro (⟨hx, -⟩ | ⟨-, hy⟩ | ⟨rfl, hy⟩)
      · exact absurd rfl hx
      · exact hy
      · exact hy
  · by_cases hy : y = Int64.minValue
    · subst hy
      rw [multiply_minValue_right, Int64.mul_comm, eq_comm, minValue_mul_eq_zero_iff]
      simp [hx]
    · simp [hx, hy, multiply_eq_mul]

theorem toInt_add_subtract_multiply {σ : Type} (memory : σ) (x y : Word) :
    AddedIn (turns y) x y (add x y) ∧
    (add x y).toInt =
      (if y = Int64.minValue then x.toInt else (x.toInt + y.toInt).bmod (2 ^ 64)) ∧
    AddedIn (turns y) x (negate y) (subtract x y) ∧
    (subtract x y).toInt =
      (if y = Int64.minValue then x.toInt else (x.toInt - y.toInt).bmod (2 ^ 64)) ∧
    MultipliedIn (turns x) x y (multiply x y) ∧
    (multiply x y).toInt =
      (if x = Int64.minValue ∨ y = Int64.minValue then 0
        else (x.toInt * y.toInt).bmod (2 ^ 64)) ∧
    (Machine.counting.add x y memory = Machine.native.add x y memory ↔ y ≠ Int64.minValue) ∧
    (Machine.counting.multiply x y memory = Machine.native.multiply x y memory ↔
      (x ≠ Int64.minValue ∧ y ≠ Int64.minValue) ∨ (x = Int64.minValue ∧ Even y.toInt) ∨
        (y = Int64.minValue ∧ Even x.toInt)) := by
  refine ⟨add_addedIn x y, toInt_add x y, subtract_addedIn x y, toInt_subtract x y,
    multiply_multipliedIn x y, toInt_multiply x y, ?_, ?_⟩
  · rw [← add_eq_add_iff (x := x)]
    exact Work.pure_inj
  · rw [← multiply_eq_mul_iff]
    exact Work.pure_inj

end Counting

end PiDigits
