import PiDigits.Word
import PiDigits.Violation

/-!
Arithmetic on words by counting: from one more, one less, negation and a test for "positive",
everything else is a loop whose length is the size of an operand. The negation of the least word
is that word again, so the operations are not the wrapping ones there.
-/

namespace PiDigits.Counting

def increment (x : Word) : Word := x + 1

def decrement (x : Word) : Word := x - 1

def negate (x : Word) : Word := -x

def isPositive (x : Word) : Bool := decide (0 < x)

theorem isPositive_iff {x : Word} : isPositive x = true ↔ 0 < x := decide_eq_true_iff

def climb (x y : Word) : Word :=
  if 0 < y then climb (x + 1) (y - 1) else x
termination_by y.toInt.toNat
decreasing_by
  have hy : 0 < y.toInt := by simpa using Int64.lt_iff_toInt_lt.1 ‹0 < y›
  rw [Word.toInt_sub_one ‹0 < y›]
  omega

def descend (x y : Word) : Word :=
  if 0 < -y then descend (x - 1) (y + 1) else x
termination_by (-y.toInt).toNat
decreasing_by
  have hy := ((Word.neg_pos_iff y).1 ‹0 < -y›).1
  have hy' : y.toInt < 0 := by simpa using Int64.lt_iff_toInt_lt.1 hy
  rw [Word.toInt_add_one hy]
  omega

def add (x y : Word) : Word := if 0 < y then climb x y else descend x y

def subtract (x y : Word) : Word := add x (negate y)

def logicalNot (x : Word) : Word := Word.ofBool (!isPositive x)

def equals (x y : Word) : Word :=
  let difference := subtract x y
  Word.ofBool (!(isPositive difference || isPositive (negate difference)))

def greaterThan (x y : Word) : Word := Word.ofBool (isPositive (subtract x y))

def lessThan (x y : Word) : Word :=
  let difference := subtract x y
  Word.ofBool (!(isPositive difference || isPositive (equals difference 0)))

theorem climb_eq_add {x y : Word} (h : 0 ≤ y) : climb x y = x + y := by
  fun_induction climb x y with
  | case1 x y hy ih =>
    have hy' : 0 < y.toInt := by simpa using Int64.lt_iff_toInt_lt.1 hy
    rw [ih (Int64.le_iff_toInt_le.2 (by rw [Word.toInt_sub_one hy, Int64.toInt_zero]; omega))]
    grind
  | case2 x y hy =>
    have : y = 0 := Int64.le_antisymm (Int64.not_lt.1 hy) h
    simp [this]

theorem descend_eq_add {x y : Word} (h : y ≤ 0) (hm : y ≠ Int64.minValue) :
    descend x y = x + y := by
  fun_induction descend x y with
  | case1 x y hy ih =>
    have hlt := ((Word.neg_pos_iff y).1 hy).1
    have hy' : y.toInt < 0 := by simpa using Int64.lt_iff_toInt_lt.1 hlt
    have hs := Word.toInt_add_one hlt
    have hb := y.le_toInt
    rw [ih (Int64.le_iff_toInt_le.2 (by rw [hs, Int64.toInt_zero]; omega))
      (fun e => by rw [e, Int64.toInt_minValue] at hs; omega)]
    grind
  | case2 x y hy =>
    have : y = 0 := by
      refine Int64.le_antisymm h (Int64.not_lt.1 fun hlt => hy ?_)
      exact (Word.neg_pos_iff y).2 ⟨hlt, hm⟩
    simp [this]

theorem add_eq_add {x y : Word} (h : y ≠ Int64.minValue) : add x y = x + y := by
  by_cases hy : 0 < y
  · simp only [add, if_pos hy, climb_eq_add (Int64.le_of_lt hy)]
  · simp only [add, if_neg hy, descend_eq_add (Int64.not_lt.1 hy) h]

/-- The least word has no positive negation to count down from. -/
theorem add_minValue (x : Word) : add x Int64.minValue = x := by
  have h : ¬ 0 < (Int64.minValue : Word) := by decide
  have h' : ¬ 0 < -(Int64.minValue : Word) := by decide
  rw [add, if_neg h, descend, if_neg h']

theorem subtract_eq_sub {x y : Word} (h : y ≠ Int64.minValue) : subtract x y = x - y := by
  have hn : -y ≠ Int64.minValue := fun e => h (by
    have := congrArg Neg.neg e
    rwa [Int64.neg_neg, show -Int64.minValue = (Int64.minValue : Int64) by decide] at this)
  rw [subtract, negate, add_eq_add hn, Int64.sub_eq_add_neg]

theorem greaterThan_neg_one_pos_iff {x : Word} :
    0 < greaterThan x (-1) ↔ 0 ≤ x ∧ x ≠ Int64.maxValue := by
  have hs : subtract x (-1) = x + 1 := by rw [subtract_eq_sub (by decide)]; grind
  have hp : 0 < greaterThan x (-1) ↔ 0 < x + 1 := by
    rw [greaterThan, hs]
    cases hx : isPositive (x + 1)
    · simp only [Word.ofBool_false]
      exact ⟨fun h => absurd h (by decide), fun h => by simp [isPositive_iff.2 h] at hx⟩
    · simp only [Word.ofBool_true]
      exact ⟨fun _ => isPositive_iff.1 hx, fun _ => by decide⟩
  rw [hp]
  have h1 := x.le_toInt
  have h2 := x.toInt_lt
  by_cases hm : x = Int64.maxValue
  · subst hm; decide
  · have hx : x.toInt ≠ 2 ^ 63 - 1 := fun e =>
      hm (Int64.toInt_inj.1 (by rw [e, Int64.toInt_maxValue]))
    have ha : (x + 1).toInt = x.toInt + 1 := by
      rw [Int64.toInt_add, Int64.toInt_one, Int.bmod_eq_of_le] <;> omega
    simp only [Int64.lt_iff_toInt_lt, Int64.le_iff_toInt_le, ha, Int64.toInt_zero]
    exact ⟨fun h => ⟨by omega, hm⟩, fun h => by omega⟩

/-- How many times a positive `y` can be taken from `x`, added to `quotient`. -/
def takeAway (x y quotient : Word) (hy : 0 < y) : Word :=
  let difference := subtract x y
  if 0 < greaterThan difference (-1) then takeAway difference y (quotient + 1) hy else quotient
termination_by if x < 0 then UInt64.size else x.toInt.toNat
decreasing_by
  rename_i hd
  have hne : y ≠ Int64.minValue := fun e => by subst e; exact absurd hy (by decide)
  obtain ⟨h0, _⟩ := greaterThan_neg_one_pos_iff.1 hd
  have h0' : 0 ≤ (subtract x y).toInt := by simpa using Int64.le_iff_toInt_le.1 h0
  have hlt := (subtract x y).toInt_lt
  have hy' : 0 < y.toInt := by simpa using Int64.lt_iff_toInt_lt.1 hy
  rw [if_neg (Int64.not_lt.2 h0)]
  by_cases hx : x < 0
  · rw [if_pos hx, UInt64.size]; omega
  · rw [if_neg hx]
    have hs := Word.toInt_sub (Int64.not_lt.1 hx) (Int64.le_of_lt hy)
    rw [← subtract_eq_sub hne] at hs
    have hx' : 0 ≤ x.toInt := by simpa using Int64.le_iff_toInt_le.1 (Int64.not_lt.1 hx)
    omega

def dividePositive (x y : Word) : Except Violation Word :=
  if hy : 0 < y then .ok (takeAway x y 0 hy) else .error .divisorNotPositive

def accumulate (x y product : Word) : Word :=
  if 0 < x then accumulate (x - 1) y (add product y) else product
termination_by x.toInt.toNat
decreasing_by
  have hx : 0 < x.toInt := by simpa using Int64.lt_iff_toInt_lt.1 ‹0 < x›
  rw [Word.toInt_sub_one ‹0 < x›]
  omega

def multiply (x y : Word) : Word :=
  if isPositive (negate x) then accumulate (negate x) (negate y) 0 else accumulate x y 0

def divide (x y : Word) : Except Violation Word := do
  let negative := isPositive (negate x)
  let sign : Word := if negative then negate 1 else 1
  let x := if negative then negate x else x
  let negative := isPositive (negate y)
  let sign := if negative then multiply sign (negate 1) else sign
  let y := if negative then negate y else y
  return multiply sign (← dividePositive x y)

def modulus (x y : Word) : Except Violation Word := do
  return subtract x (multiply (← divide x y) y)

end PiDigits.Counting
