import Mathlib.Algebra.Order.Ring.Int
import Mathlib.Data.Nat.Prime.Basic
import PiDigits.Proofs.CountedComparisons

/-!
Quotients and remainders by counting, for every pair of words. The divisor is taken away until the
difference is negative, or is the greatest word, which only the least word as a dividend can bring
about.
-/

namespace PiDigits.Counting

variable {x y : Word} {a b : ℕ}

/-- Whether the divisor can be taken away once more. From a difference that is the greatest word the
answer is no, since one more than it is negative. -/
def enough (y : Word) (s : Word × Word) : Bool :=
  isPositive (greaterThan (subtract s.1 y) (negate 1))

def takeOnce (y : Word) (s : Word × Word) : Word × Word := (subtract s.1 y, increment s.2)

def TakenIn (rounds : ℕ) (x y quotient : Word) : Prop :=
  ∃ rest, Looped (enough y) (takeOnce y) rounds (x, 0) (rest, quotient)

theorem enough_iff {s : Word × Word} :
    enough y s = true ↔
      0 ≤ (subtract s.1 y).toInt ∧ (subtract s.1 y).toInt ≠ 2 ^ 63 - 1 := by
  rw [enough, isPositive_iff, negate]
  apply greaterThan_neg_one_pos_iff.trans
  rw [Word.nonneg_iff, Ne, ← Int64.toInt_inj, Int64.toInt_maxValue]

theorem enough_eq_true (quotient : Word) :
    enough y (x, quotient) = true ↔ 0 < greaterThan (subtract x y) (-1) := isPositive_iff

theorem takeAway_of_looped {rounds : ℕ} {quotient : Word} {s : Word × Word} (hy : 0 < y)
    (h : Looped (enough y) (takeOnce y) rounds (x, quotient) s) :
    takeAway x y quotient hy = s.2 := by
  generalize hstart : (x, quotient) = start at h
  induction h generalizing x quotient with
  | stop hstop =>
    subst hstart
    rw [takeAway, if_neg]
    rw [← enough_eq_true quotient, hstop]
    exact Bool.false_ne_true
  | again hgoes _ ih =>
    subst hstart
    rw [takeAway, if_pos ((enough_eq_true quotient).1 hgoes)]
    exact ih rfl

theorem dividePositive_of_takenIn {rounds : ℕ} {quotient : Word} (hy : 0 < y)
    (h : TakenIn rounds x y quotient) : dividePositive x y = .ok quotient := by
  obtain ⟨rest, hlooped⟩ := h
  rw [dividePositive, dif_pos hy, takeAway_of_looped hy hlooped]

theorem toInt_ofNat_subtract (ha : a < 2 ^ 63) (hb : b < 2 ^ 63) :
    (subtract (Int64.ofNat a) (Int64.ofNat b)).toInt = (a : ℤ) - b := by
  have hx := Word.ofNat_nonneg ha
  have hy := Word.ofNat_nonneg hb
  rw [subtract_eq_sub (Word.ne_minValue hy), Word.toInt_sub hx hy, Int64.toInt_ofNat_of_lt ha,
    Int64.toInt_ofNat_of_lt hb]

theorem looped_ofNat (ha : a < 2 ^ 63) (hb : b < 2 ^ 63) (hpos : 0 < b) (quotient : Word) :
    Looped (enough (Int64.ofNat b)) (takeOnce (Int64.ofNat b)) (a / b) (Int64.ofNat a, quotient)
      (Int64.ofNat (a % b), quotient + Int64.ofNat (a / b)) := by
  -- both words stay below `2 ^ 63`, so that no difference wraps on the way down
  induction a using Nat.strongRecOn generalizing quotient with
  | ind a ih =>
    have hd := toInt_ofNat_subtract ha hb
    by_cases hle : b ≤ a
    · have hround : takeOnce (Int64.ofNat b) (Int64.ofNat a, quotient) =
          (Int64.ofNat (a - b), quotient + 1) := by
        have : subtract (Int64.ofNat a) (Int64.ofNat b) = Int64.ofNat (a - b) := by
          rw [← Int64.toInt_inj, hd, Int64.toInt_ofNat_of_lt (by omega)]
          omega
        rw [takeOnce, this, increment]
      have hquotient : quotient + Int64.ofNat ((a - b) / b + 1) =
          quotient + 1 + Int64.ofNat ((a - b) / b) := by
        rw [Int64.ofNat_add, show Int64.ofNat 1 = 1 from rfl]
        grind
      rw [Nat.div_eq_sub_div hpos hle, Nat.mod_eq_sub_mod hle, hquotient]
      refine .again (enough_iff.2 ?_) ?_
      · rw [hd]
        omega
      · rw [hround]
        exact ih (a - b) (by omega) (by omega) (quotient + 1)
    · rw [Nat.div_eq_of_lt (by omega), Nat.mod_eq_of_lt (by omega), show Int64.ofNat 0 = 0 from rfl,
        Int64.add_zero]
      apply Looped.stop
      rw [← Bool.not_eq_true, enough_iff, hd]
      omega

theorem takenIn_ofNat (ha : a < 2 ^ 63) (hb : b < 2 ^ 63) (hpos : 0 < b) :
    TakenIn (a / b) (Int64.ofNat a) (Int64.ofNat b) (Int64.ofNat (a / b)) := by
  have h := looped_ofNat ha hb hpos 0
  rw [Int64.zero_add] at h
  exact ⟨_, h⟩

theorem toInt_minValue_subtract (hb : b < 2 ^ 63) (hpos : 0 < b) :
    (subtract Int64.minValue (Int64.ofNat b)).toInt = 2 ^ 63 - b := by
  have hy := Word.ne_minValue (Word.ofNat_nonneg hb)
  rw [toInt_subtract, if_neg hy, Int64.toInt_ofNat_of_lt hb, Int64.toInt_minValue, Int.bmod_def]
  split <;> omega

theorem takenIn_minValue_one : TakenIn 0 Int64.minValue 1 0 := by
  have hd := toInt_minValue_subtract (b := 1) (by omega) (by omega)
  refine ⟨_, .stop ?_⟩
  rw [← Bool.not_eq_true, enough_iff, not_and_not_right]
  exact fun _ => hd

theorem takenIn_minValue (hb : b < 2 ^ 63) (hone : 1 < b) :
    TakenIn (2 ^ 63 / b) Int64.minValue (Int64.ofNat b) (Int64.ofNat (2 ^ 63 / b)) := by
  have hd := toInt_minValue_subtract hb (by omega)
  -- the first difference wraps to a positive one, and from there on nothing wraps
  have hround : takeOnce (Int64.ofNat b) (Int64.minValue, 0) = (Int64.ofNat (2 ^ 63 - b), 1) := by
    have : subtract Int64.minValue (Int64.ofNat b) = Int64.ofNat (2 ^ 63 - b) := by
      rw [← Int64.toInt_inj, hd, Int64.toInt_ofNat_of_lt (by omega)]
      omega
    rw [takeOnce, this]
    rfl
  have hrest := looped_ofNat (a := 2 ^ 63 - b) (by omega) hb (by omega) 1
  have hquotient : 1 + Int64.ofNat ((2 ^ 63 - b) / b) = Int64.ofNat ((2 ^ 63 - b) / b + 1) := by
    rw [Int64.ofNat_add, show Int64.ofNat 1 = 1 from rfl, Int64.add_comm]
  rw [← hround, hquotient] at hrest
  rw [Nat.div_eq_sub_div (by omega) (by omega : b ≤ 2 ^ 63)]
  refine ⟨_, .again (enough_iff.2 ?_) hrest⟩
  rw [hd]
  omega

theorem divide_eq (x y : Word) :
    divide x y =
      multiply (if isPositive (negate x) = isPositive (negate y) then 1 else -1) <$>
        dividePositive (size x) (size y) := by
  have hone : multiply 1 (negate 1) = -1 := by
    rw [multiply_eq_mul (by decide) (by decide)]
    decide
  have hminus : multiply (negate 1) (negate 1) = 1 := by
    rw [multiply_eq_mul (by decide) (by decide)]
    decide
  rw [divide, map_eq_pure_bind, size, size]
  cases isPositive (negate x) <;> cases isPositive (negate y) <;>
    simp only [hone, hminus, if_true, if_false, Bool.false_eq_true, Bool.true_eq_false]
  rfl

theorem natAbs_pos (hx : x ≠ 0) : 0 < x.toInt.natAbs := by
  rw [Int.natAbs_pos, ← Int64.toInt_zero]
  exact fun h => hx (Int64.toInt_inj.1 h)

theorem size_eq_ofNat (hx : x ≠ Int64.minValue) : size x = Int64.ofNat x.toInt.natAbs := by
  rw [← Int64.toInt_inj, toInt_size hx, Int64.toInt_ofNat_of_lt (Word.ne_minValue_iff.1 hx)]

theorem size_pos_iff : 0 < size y ↔ y ≠ 0 ∧ y ≠ Int64.minValue := by
  by_cases hy : y = Int64.minValue
  · subst hy
    decide
  · rw [Word.pos_iff, toInt_size hy, Ne, ← Int64.toInt_inj, Int64.toInt_zero]
    simp [hy]

theorem divide_eq_error (h : y = 0 ∨ y = Int64.minValue) :
    divide x y = .error .divisorNotPositive := by
  have hsize : ¬ 0 < size y := by
    rw [size_pos_iff]
    tauto
  rw [divide_eq, dividePositive, dif_neg hsize]
  rfl

theorem toInt_multiply_sign (p : Prop) [Decidable p] (ha : a < 2 ^ 63) :
    (multiply (if p then 1 else -1) (Int64.ofNat a)).toInt = if p then (a : ℤ) else -a := by
  have hn := Word.ne_minValue (Word.ofNat_nonneg ha)
  split
  · rw [multiply_eq_mul (by decide) hn, Int64.one_mul, Int64.toInt_ofNat_of_lt ha]
  · rw [multiply_eq_mul (by decide) hn, Int64.neg_mul, Int64.one_mul, Word.toInt_neg hn,
      Int64.toInt_ofNat_of_lt ha]

theorem divide_of_takenIn (hy : y ≠ 0) (hm : y ≠ Int64.minValue) (ha : a < 2 ^ 63)
    (h : TakenIn a (size x) (size y) (Int64.ofNat a)) :
    ∃ q, divide x y = .ok q ∧ TakenIn q.toInt.natAbs (size x) (size y) (size q) ∧
      q.toInt = if isPositive (negate x) = isPositive (negate y) then (a : ℤ) else -a := by
  have hq := toInt_multiply_sign (isPositive (negate x) = isPositive (negate y)) ha
  have hdivide := divide_eq x y
  rw [dividePositive_of_takenIn (size_pos_iff.2 ⟨hy, hm⟩) h] at hdivide
  change divide x y = .ok _ at hdivide
  generalize multiply _ (Int64.ofNat a) = q at hq hdivide
  have habs : q.toInt.natAbs = a := by
    rw [hq]
    split <;> omega
  have hqm : q ≠ Int64.minValue := by
    rw [Word.ne_minValue_iff]
    omega
  refine ⟨q, hdivide, ?_, hq⟩
  rwa [size_eq_ofNat hqm, habs]

theorem tdiv_eq_ite (i j : ℤ) :
    i.tdiv j =
      if (i < 0 ↔ j < 0) then ((i.natAbs / j.natAbs : ℕ) : ℤ)
        else -((i.natAbs / j.natAbs : ℕ) : ℤ) := by
  obtain ⟨m, rfl | rfl⟩ := i.eq_nat_or_neg <;> obtain ⟨n, rfl | rfl⟩ := j.eq_nat_or_neg <;>
    simp only [Int.tdiv_neg, Int.neg_tdiv, Int.natAbs_neg, Int.natAbs_natCast, Int.ofNat_tdiv,
      Int.neg_neg]
  · rw [if_pos (by omega)]
  · split
    · have : n = 0 := by omega
      simp [this]
    · rfl
  · split
    · have : m = 0 := by omega
      simp [this]
    · rfl
  · split
    · rfl
    · have : m = 0 ∨ n = 0 := by omega
      rcases this with rfl | rfl <;> simp

theorem natAbs_sign_mul {i : ℤ} (hi : i ≠ 0) (n : ℕ) : (i.sign * n).natAbs = n := by
  rw [Int.natAbs_mul, Int.natAbs_sign_of_ne_zero hi, Nat.one_mul, Int.natAbs_natCast]

theorem turned_alike_iff (hx : x ≠ Int64.minValue) (hy : y ≠ Int64.minValue) :
    isPositive (negate x) = isPositive (negate y) ↔ (x.toInt < 0 ↔ y.toInt < 0) := by
  rw [Word.ne_minValue_iff] at hx hy
  rw [isPositive_negate_eq, isPositive_negate_eq, decide_eq_decide]
  omega

theorem divide_ends (hx : x ≠ Int64.minValue) (hy : y ≠ 0) (hm : y ≠ Int64.minValue) :
    ∃ q, divide x y = .ok q ∧ TakenIn q.toInt.natAbs (size x) (size y) (size q) ∧
      q.toInt = x.toInt.tdiv y.toInt := by
  have htaken : TakenIn (x.toInt.natAbs / y.toInt.natAbs) (size x) (size y)
      (Int64.ofNat (x.toInt.natAbs / y.toInt.natAbs)) := by
    rw [size_eq_ofNat hx, size_eq_ofNat hm]
    exact takenIn_ofNat (Word.ne_minValue_iff.1 hx) (Word.ne_minValue_iff.1 hm) (natAbs_pos hy)
  have hq := Nat.lt_of_le_of_lt (Nat.div_le_self _ y.toInt.natAbs) (Word.ne_minValue_iff.1 hx)
  obtain ⟨q, hdivide, hrounds, hvalue⟩ := divide_of_takenIn hy hm hq htaken
  refine ⟨q, hdivide, hrounds, ?_⟩
  rw [hvalue, tdiv_eq_ite]
  simp only [turned_alike_iff hx hm]

theorem divide_minValue_ends (hy : y ≠ 0) (hm : y ≠ Int64.minValue) :
    ∃ q, divide Int64.minValue y = .ok q ∧
      TakenIn q.toInt.natAbs (size Int64.minValue) (size y) (size q) ∧
      q.toInt = if y.toInt.natAbs = 1 then 0
        else y.toInt.sign * (2 ^ 63 / y.toInt.natAbs : ℕ) := by
  have hpos := natAbs_pos hy
  have hlt := Word.ne_minValue_iff.1 hm
  have hsize : size Int64.minValue = Int64.minValue := by decide
  have hturned : isPositive (negate Int64.minValue) = false := by decide
  by_cases hone : y.toInt.natAbs = 1
  · have htaken : TakenIn 0 (size Int64.minValue) (size y) (Int64.ofNat 0) := by
      rw [size_eq_ofNat hm, hone, hsize]
      exact takenIn_minValue_one
    obtain ⟨q, hdivide, hrounds, hvalue⟩ := divide_of_takenIn hy hm (by omega) htaken
    refine ⟨q, hdivide, hrounds, ?_⟩
    rw [hvalue, if_pos hone]
    split <;> rfl
  · have hq : 2 ^ 63 / y.toInt.natAbs < 2 ^ 63 := Nat.div_lt_self (by omega) (by omega)
    have htaken : TakenIn (2 ^ 63 / y.toInt.natAbs) (size Int64.minValue) (size y)
        (Int64.ofNat (2 ^ 63 / y.toInt.natAbs)) := by
      rw [size_eq_ofNat hm, hsize]
      exact takenIn_minValue (by omega) (by omega)
    obtain ⟨q, hdivide, hrounds, hvalue⟩ := divide_of_takenIn hy hm hq htaken
    refine ⟨q, hdivide, hrounds, ?_⟩
    rw [hvalue, if_neg hone, hturned, isPositive_negate_eq]
    by_cases hneg : y.toInt < 0
    · rw [decide_eq_true ⟨by omega, hneg⟩, if_neg Bool.false_ne_true,
        Int.sign_eq_neg_one_of_neg hneg, Int.neg_one_mul]
    · rw [decide_eq_false (by omega), if_pos rfl, Int.sign_eq_one_of_pos (by omega), Int.one_mul]

theorem bmod_eq_self {i : ℤ} (h : i.natAbs < 2 ^ 63) : i.bmod (2 ^ 64) = i := by
  apply Int.bmod_eq_of_le <;> omega

theorem modulus_eq {q : Word} (h : divide x y = .ok q) :
    modulus x y = .ok (subtract x (multiply q y)) := by
  rw [modulus, h]
  rfl

theorem modulus_eq_error (h : y = 0 ∨ y = Int64.minValue) :
    modulus x y = .error .divisorNotPositive := by
  rw [modulus, divide_eq_error h]
  rfl

theorem toInt_subtract_multiply {q : Word} (hx : x ≠ Int64.minValue) (hy : y ≠ Int64.minValue)
    (hq : q.toInt = x.toInt.tdiv y.toInt) :
    (subtract x (multiply q y)).toInt = x.toInt.tmod y.toInt := by
  rw [Word.ne_minValue_iff] at hx
  have hquotient : (x.toInt.tdiv y.toInt).natAbs ≤ x.toInt.natAbs := by
    rw [Int.natAbs_tdiv]
    exact Nat.div_le_self _ _
  have hproduct : (x.toInt.tdiv y.toInt * y.toInt).natAbs ≤ x.toInt.natAbs := by
    rw [Int.natAbs_mul, Int.natAbs_tdiv]
    exact Nat.div_mul_le_self _ _
  have hremainder : (x.toInt.tmod y.toInt).natAbs ≤ x.toInt.natAbs := by
    rw [Int.natAbs_tmod]
    exact Nat.mod_le _ _
  have hqm : q ≠ Int64.minValue := by
    rw [Word.ne_minValue_iff]
    omega
  -- the product is no larger than the dividend and does not wrap
  have hp : (multiply q y).toInt = x.toInt.tdiv y.toInt * y.toInt := by
    rw [multiply_eq_mul hqm hy, Int64.toInt_mul, hq, bmod_eq_self (by omega)]
  have hpm : multiply q y ≠ Int64.minValue := by
    rw [Word.ne_minValue_iff]
    omega
  rw [toInt_subtract, if_neg hpm, hp, Int.mul_comm, ← Int.tmod_def, bmod_eq_self (by omega)]

theorem toInt_minValue_subtract_multiply {q : Word} {i : ℤ} (hq : q ≠ Int64.minValue)
    (hy : y ≠ Int64.minValue) (hi : q.toInt * y.toInt = i) (hl : 0 ≤ i) (hu : i ≤ 2 ^ 63) :
    (subtract Int64.minValue (multiply q y)).toInt =
      if i = 0 ∨ i = 2 ^ 63 then -2 ^ 63 else 2 ^ 63 - i := by
  -- a product of `2 ^ 63` wraps to the least word, and taking that away changes nothing
  have hp : (multiply q y).toInt = if i = 2 ^ 63 then -2 ^ 63 else i := by
    rw [multiply_eq_mul hq hy, Int64.toInt_mul, hi, Int.bmod_def]
    split <;> omega
  rw [toInt_subtract, Int64.toInt_minValue, Int.bmod_def]
  simp only [Word.eq_minValue_iff, hp]
  omega

theorem eq_two_pow_iff (hpos : 0 < a) (ha : a < 2 ^ 63) :
    (∃ k, a = 2 ^ k) ↔ 2 ^ 63 % a = 0 := by
  constructor
  · rintro ⟨k, rfl⟩
    have hk : k < 63 := (Nat.pow_lt_pow_iff_right (by omega)).1 ha
    exact Nat.mod_eq_zero_of_dvd (Nat.pow_dvd_pow 2 (by omega))
  · intro h
    obtain ⟨k, -, hk⟩ := (Nat.dvd_prime_pow Nat.prime_two).1 (Nat.dvd_of_mod_eq_zero h)
    exact ⟨k, hk⟩

theorem toInt_remainder_minValue {q : Word} (hy : y ≠ 0) (hm : y ≠ Int64.minValue)
    (hq : q.toInt = if y.toInt.natAbs = 1 then 0
      else y.toInt.sign * (2 ^ 63 / y.toInt.natAbs : ℕ)) :
    (subtract Int64.minValue (multiply q y)).toInt =
      if 2 ^ 63 % y.toInt.natAbs = 0 then (-2 ^ 63 : ℤ)
        else ((2 ^ 63 % y.toInt.natAbs : ℕ) : ℤ) := by
  have hpos := natAbs_pos hy
  have hlt := Word.ne_minValue_iff.1 hm
  by_cases hone : y.toInt.natAbs = 1
  · rw [if_pos hone] at hq
    have hqm : q ≠ Int64.minValue := by
      rw [Word.ne_minValue_iff]
      omega
    have hi : q.toInt * y.toInt = 0 := by rw [hq, Int.zero_mul]
    rw [toInt_minValue_subtract_multiply hqm hm hi (by omega) (by omega), hone, if_pos (.inl rfl)]
    rfl
  · rw [if_neg hone] at hq
    have hsign : y.toInt.sign * y.toInt = y.toInt.natAbs := Int.sign_mul_self _
    have hi : q.toInt * y.toInt = (2 ^ 63 / y.toInt.natAbs * y.toInt.natAbs : ℕ) := by
      rw [hq, Int.mul_right_comm, hsign, Int.mul_comm, Int.natCast_mul]
    have hqm : q ≠ Int64.minValue := by
      have habs := natAbs_sign_mul (i := y.toInt) (by omega) (2 ^ 63 / y.toInt.natAbs)
      have hlt : 2 ^ 63 / y.toInt.natAbs < 2 ^ 63 := Nat.div_lt_self (by omega) (by omega)
      rw [Word.ne_minValue_iff]
      omega
    have hdiv := Nat.div_add_mod' (2 ^ 63) y.toInt.natAbs
    have hmod := Nat.mod_lt (2 ^ 63) (show 0 < y.toInt.natAbs by omega)
    rw [toInt_minValue_subtract_multiply hqm hm hi (by omega) (by omega)]
    split <;> split <;> omega

theorem divide_eq_div (hx : x ≠ Int64.minValue) (hy : y ≠ 0) (hm : y ≠ Int64.minValue) :
    divide x y = .ok (x / y) := by
  obtain ⟨q, hdivide, -, hq⟩ := divide_ends hx hy hm
  rw [hdivide, Except.ok.injEq, ← Int64.toInt_inj, hq, Int64.toInt_div_of_ne_left x y hx]

theorem modulus_eq_mod (hx : x ≠ Int64.minValue) (hy : y ≠ 0) (hm : y ≠ Int64.minValue) :
    modulus x y = .ok (x % y) := by
  obtain ⟨q, hdivide, -, hq⟩ := divide_ends hx hy hm
  rw [modulus_eq hdivide, Except.ok.injEq, ← Int64.toInt_inj, toInt_subtract_multiply hx hm hq,
    Int64.toInt_mod]

theorem eq_neg_minValue_div {q : Word} (hy : y ≠ 0) (hone : y.toInt.natAbs ≠ 1)
    (hq : q.toInt = y.toInt.sign * (2 ^ 63 / y.toInt.natAbs : ℕ)) : q = -(Int64.minValue / y) := by
  have hminus : y ≠ -1 := by
    rintro rfl
    exact hone (by decide)
  have hpos := natAbs_pos hy
  have habs := natAbs_sign_mul (i := y.toInt) (by omega) (2 ^ 63 / y.toInt.natAbs)
  have hlt : 2 ^ 63 / y.toInt.natAbs < 2 ^ 63 := Nat.div_lt_self (by omega) (by omega)
  have hnative : (Int64.minValue / y).toInt = -q.toInt := by
    rw [Int64.toInt_div_of_ne_right _ _ hminus, Int64.toInt_minValue, tdiv_eq_ite, hq]
    by_cases hneg : y.toInt < 0
    · rw [if_pos (by omega), Int.sign_eq_neg_one_of_neg hneg, Int.neg_one_mul, Int.neg_neg]
      rfl
    · rw [if_neg (by omega), Int.sign_eq_one_of_pos (by omega), Int.one_mul]
      rfl
  rw [← Int64.toInt_inj, Word.toInt_neg, hnative, Int.neg_neg]
  rw [Word.ne_minValue_iff, hnative]
  omega

theorem divide_modulus_ends {σ : Type} (memory : σ) (x y : Word) :
    (y = 0 ∨ y = Int64.minValue →
      divide x y = .error .divisorNotPositive ∧ modulus x y = .error .divisorNotPositive) ∧
    (y ≠ 0 → y ≠ Int64.minValue → ∃ q r,
      divide x y = .ok q ∧ modulus x y = .ok r ∧
      TakenIn q.toInt.natAbs (size x) (size y) (size q) ∧
      (x ≠ Int64.minValue →
        q.toInt = x.toInt.tdiv y.toInt ∧ r.toInt = x.toInt.tmod y.toInt ∧
        Machine.counting.divide x y memory = Machine.native.divide x y memory ∧
        Machine.counting.modulus x y memory = Machine.native.modulus x y memory) ∧
      (x = Int64.minValue →
        q.toInt = (if y.toInt.natAbs = 1 then 0
          else y.toInt.sign * (2 ^ 63 / y.toInt.natAbs : ℕ)) ∧
        (y.toInt.natAbs ≠ 1 → q = -(x / y)) ∧
        ((∃ k, y.toInt.natAbs = 2 ^ k) → r = Int64.minValue) ∧
        ((¬ ∃ k, y.toInt.natAbs = 2 ^ k) → r.toInt = (2 ^ 63 % y.toInt.natAbs : ℕ)))) := by
  refine ⟨fun h => ⟨divide_eq_error h, modulus_eq_error h⟩, ?_⟩
  intro hy hm
  by_cases hx : x = Int64.minValue
  · subst hx
    obtain ⟨q, hdivide, hrounds, hq⟩ := divide_minValue_ends hy hm
    have hr := toInt_remainder_minValue hy hm hq
    have hpow := eq_two_pow_iff (natAbs_pos hy) (Word.ne_minValue_iff.1 hm)
    refine ⟨q, _, hdivide, modulus_eq hdivide, hrounds, fun h => absurd rfl h, ?_⟩
    intro
    refine ⟨hq, ?_, ?_, ?_⟩
    · intro hone
      rw [if_neg hone] at hq
      exact eq_neg_minValue_div hy hone hq
    · intro h
      rw [if_pos (hpow.1 h)] at hr
      exact Word.eq_minValue_iff.2 hr
    · intro h
      rwa [if_neg (mt hpow.2 h)] at hr
  · obtain ⟨q, hdivide, hrounds, hq⟩ := divide_ends hx hy hm
    have hr := toInt_subtract_multiply hx hm hq
    refine ⟨q, _, hdivide, modulus_eq hdivide, hrounds, ?_, fun h => absurd h hx⟩
    intro
    refine ⟨hq, hr, ?_, ?_⟩
    · simp only [Machine.counting, Machine.native, divide_eq_div hx hy hm, if_neg hy]
      rfl
    · simp only [Machine.counting, Machine.native, modulus_eq_mod hx hy hm, if_neg hy]
      rfl

theorem divide_modulus_ends_minValue :
    ((0 : Word) = 0 ∨ (0 : Word) = Int64.minValue) ∧
    divide 5 0 = .error .divisorNotPositive ∧ modulus 5 0 = .error .divisorNotPositive ∧
    (∃ q r, divide 7 (-2) = .ok q ∧ modulus 7 (-2) = .ok r ∧ q.toInt = -3 ∧ r.toInt = 1) ∧
    (∃ q r, divide Int64.minValue (-3) = .ok q ∧ modulus Int64.minValue (-3) = .ok r ∧
      q.toInt = -3074457345618258602 ∧ q = -(Int64.minValue / -3) ∧ r.toInt = 2) ∧
    ∃ r, modulus Int64.minValue 4 = .ok r ∧ r = Int64.minValue := by
  have hzero : (0 : Word) = 0 ∨ (0 : Word) = Int64.minValue := .inl rfl
  obtain ⟨hdivide, hmodulus⟩ := (divide_modulus_ends () 5 0).1 hzero
  refine ⟨hzero, hdivide, hmodulus, ?_, ?_, ?_⟩
  · obtain ⟨q, r, hq, hr, -, hplain, -⟩ :=
      (divide_modulus_ends () 7 (-2)).2 (by decide) (by decide)
    obtain ⟨hquotient, hremainder, -⟩ := hplain (by decide)
    exact ⟨q, r, hq, hr, hquotient, hremainder⟩
  · obtain ⟨q, r, hq, hr, -, -, hleast⟩ :=
      (divide_modulus_ends () Int64.minValue (-3)).2 (by decide) (by decide)
    obtain ⟨hquotient, hsign, -, hremainder⟩ := hleast rfl
    have hpow : ¬ ∃ k, (-3 : Word).toInt.natAbs = 2 ^ k :=
      mt (eq_two_pow_iff (by decide) (by decide)).1 (by decide)
    exact ⟨q, r, hq, hr, hquotient, hsign (by decide), hremainder hpow⟩
  · obtain ⟨q, r, -, hr, -, -, hleast⟩ :=
      (divide_modulus_ends () Int64.minValue 4).2 (by decide) (by decide)
    exact ⟨r, hr, (hleast rfl).2.2.1 ⟨2, rfl⟩⟩

end PiDigits.Counting
