/-!
Machine words: signed 64-bit integers with wrapping arithmetic. A count or a position in an array
is the same 64 bits read without a sign.
-/

namespace PiDigits

abbrev Word := Int64

namespace Word

/-- The word as a position or a count; a negative word becomes a huge one. -/
def toCount (x : Word) : UInt64 := x.toUInt64

def ofCount (n : UInt64) : Word := n.toInt64

def ofBool (b : Bool) : Word := if b then 1 else 0

@[simp] theorem ofBool_true : ofBool true = 1 := rfl

@[simp] theorem ofBool_false : ofBool false = 0 := rfl

@[simp] theorem ofCount_toCount (x : Word) : ofCount x.toCount = x := rfl

@[simp] theorem toCount_ofCount (n : UInt64) : (ofCount n).toCount = n := rfl

theorem toInt_sub_one {x : Word} (h : 0 < x) : (x - 1).toInt = x.toInt - 1 := by
  have hx : 0 < x.toInt := by simpa using Int64.lt_iff_toInt_lt.1 h
  have := x.toInt_lt
  rw [Int64.toInt_sub, Int64.toInt_one, Int.bmod_eq_of_le] <;> omega

theorem toInt_add_one {x : Word} (h : x < 0) : (x + 1).toInt = x.toInt + 1 := by
  have hx : x.toInt < 0 := by simpa using Int64.lt_iff_toInt_lt.1 h
  have := x.le_toInt
  rw [Int64.toInt_add, Int64.toInt_one, Int.bmod_eq_of_le] <;> omega

theorem toInt_neg {x : Word} (h : x ≠ Int64.minValue) : (-x).toInt = -x.toInt := by
  have hx : x.toInt ≠ -2 ^ 63 := fun e => h (Int64.toInt_inj.1 (by simpa using e))
  have := x.le_toInt
  have := x.toInt_lt
  rw [Int64.toInt_neg, Int.bmod_eq_of_le] <;> omega

theorem neg_pos_iff (x : Word) : 0 < -x ↔ x < 0 ∧ x ≠ Int64.minValue := by
  by_cases h : x = Int64.minValue
  · subst h; decide
  · simp only [Int64.lt_iff_toInt_lt, toInt_neg h, Int64.toInt_zero]
    exact ⟨fun hx => ⟨by omega, h⟩, fun hx => by omega⟩

theorem toInt_sub {x y : Word} (hx : 0 ≤ x) (hy : 0 ≤ y) : (x - y).toInt = x.toInt - y.toInt := by
  have hx : 0 ≤ x.toInt := by simpa using Int64.le_iff_toInt_le.1 hx
  have hy : 0 ≤ y.toInt := by simpa using Int64.le_iff_toInt_le.1 hy
  have := x.toInt_lt
  have := y.toInt_lt
  rw [Int64.toInt_sub, Int.bmod_eq_of_le] <;> omega

end Word

end PiDigits
