import Mathlib.Tactic.LinearCombination
import PiDigits.Proofs.PiSeries

namespace PiDigits.Radix

open Series

def pass : (position : ℕ) → List ℕ → ℕ × List ℕ
  | _, [] => (0, [])
  | position, entry :: rest =>
    let below := pass (position + 1) rest
    let x := 10 * entry + below.1 * position
    (x / (2 * position - 1), x % (2 * position - 1) :: below.2)

def intake (position entry : ℕ) (rest : List ℕ) : ℕ :=
  10 * entry + (pass (position + 1) rest).1 * position

def reduce (entries : List ℕ) : ℕ × List ℕ :=
  let swept := pass 1 entries
  (swept.1 / 10, swept.2.modifyHead fun _ => swept.1 % 10)

def Reduced : (position : ℕ) → List ℕ → Prop
  | _, [] => True
  | position, entry :: rest => entry < 2 * position - 1 ∧ Reduced (position + 1) rest

/-- The columns between two passes: a digit in the first and reduced entries in the others. -/
def Shaped : List ℕ → Prop
  | [] => False
  | first :: rest => first ≤ 9 ∧ Reduced 2 rest

def value : (position : ℕ) → List ℕ → ℚ
  | _, [] => 0
  | position, entry :: rest => entry * weight position + value (position + 1) rest

theorem pass_cons (position entry : ℕ) (rest : List ℕ) :
    pass position (entry :: rest) =
      (intake position entry rest / (2 * position - 1),
        intake position entry rest % (2 * position - 1) :: (pass (position + 1) rest).2) := rfl

@[simp]
theorem pass_length (position : ℕ) (entries : List ℕ) :
    (pass position entries).2.length = entries.length := by
  induction entries generalizing position with
  | nil => rfl
  | cons entry rest ih => simp only [pass, List.length_cons, ih]

theorem pass_reduced {position : ℕ} (hp : 1 ≤ position) (entries : List ℕ) :
    Reduced position (pass position entries).2 := by
  induction entries generalizing position with
  | nil => trivial
  | cons entry rest ih => exact ⟨Nat.mod_lt _ (by omega), ih (by omega)⟩

theorem Reduced.get {position : ℕ} {entries : List ℕ} (h : Reduced position entries) {k : ℕ}
    (hk : k < entries.length) : entries[k] < 2 * (position + k) - 1 := by
  induction entries generalizing position k with
  | nil => simp at hk
  | cons entry rest ih =>
    cases k with
    | zero => exact h.1
    | succ k =>
      have := ih h.2 (k := k) (by simpa using hk)
      simp only [List.getElem_cons_succ]
      omega

theorem Reduced.of_append {position : ℕ} {front back : List ℕ}
    (h : Reduced position (front ++ back)) : Reduced (position + front.length) back := by
  induction front generalizing position with
  | nil => exact h
  | cons entry rest ih =>
    rw [List.length_cons, show position + (rest.length + 1) = position + 1 + rest.length by omega]
    exact ih h.2

theorem pass_carry_le {position : ℕ} {entries : List ℕ} (hp : 2 ≤ position)
    (h : Reduced position entries) : (pass position entries).1 ≤ 19 := by
  -- 19 is kept because `10 * (2i-2) + 19i` is less than `20 * (2i-1)`
  induction entries generalizing position with
  | nil => exact Nat.zero_le _
  | cons entry rest ih =>
    have hc := ih (by omega) h.2
    have hm := Nat.mul_le_mul_right position hc
    have he := h.1
    have hlt : intake position entry rest / (2 * position - 1) < 20 := by
      apply Nat.div_lt_of_lt_mul
      simp only [intake]
      omega
    exact Nat.le_of_lt_succ hlt

theorem intake_le {position entry : ℕ} {rest : List ℕ} (hp : 2 ≤ position)
    (h : Reduced position (entry :: rest)) :
    intake position entry rest ≤ 39 * position - 20 := by
  have hm := Nat.mul_le_mul_right position (pass_carry_le (by omega) h.2)
  have he := h.1
  simp only [intake]
  omega

theorem intake_first (first : ℕ) (rest : List ℕ) :
    intake 1 first rest = 10 * first + (pass 2 rest).1 := by
  rw [intake, Nat.mul_one]

theorem intake_first_le {first : ℕ} {rest : List ℕ} (h : Shaped (first :: rest)) :
    intake 1 first rest ≤ 109 := by
  have hc := pass_carry_le (le_refl 2) h.2
  have he := h.1
  rw [intake_first]
  omega

theorem Shaped.reduced_back {front back : List ℕ} (h : Shaped (front ++ back))
    (hf : 1 ≤ front.length) : Reduced (front.length + 1) back := by
  cases front with
  | nil => simp at hf
  | cons first rest =>
    have hr := h.2.of_append
    rwa [show 2 + rest.length = (first :: rest).length + 1 by simp; omega] at hr

theorem Shaped.carry_le {front back : List ℕ} (h : Shaped (front ++ back))
    (hf : 1 ≤ front.length) : (pass (front.length + 1) back).1 ≤ 19 :=
  pass_carry_le (by omega) (h.reduced_back hf)

theorem Shaped.intake_le {front back : List ℕ} {entry : ℕ} (h : Shaped (front ++ entry :: back)) :
    (front.length = 0 → intake (front.length + 1) entry back ≤ 109) ∧
      (1 ≤ front.length →
        intake (front.length + 1) entry back ≤ 39 * (front.length + 1) - 20) := by
  constructor
  · intro hf
    obtain rfl := List.eq_nil_of_length_eq_zero hf
    exact intake_first_le h
  · intro hf
    exact Radix.intake_le (by omega) (h.reduced_back hf)

theorem Shaped.intake_lt {front back : List ℕ} {entry limit : ℕ}
    (h : Shaped (front ++ entry :: back)) (hlimit : 39 * (front.length + 1) ≤ limit)
    (hfirst : 110 ≤ limit) : intake (front.length + 1) entry back < limit := by
  obtain ⟨hzero, hpos⟩ := h.intake_le
  omega

theorem pass_first (first : ℕ) (rest : List ℕ) :
    pass 1 (first :: rest) = (intake 1 first rest, 0 :: (pass 2 rest).2) := by
  rw [pass_cons, show 2 * 1 - 1 = 1 from rfl, Nat.div_one, Nat.mod_one]

theorem reduce_cons (first : ℕ) (rest : List ℕ) :
    reduce (first :: rest) =
      (intake 1 first rest / 10, intake 1 first rest % 10 :: (pass 2 rest).2) := by
  simp only [reduce, pass_first, List.modifyHead_cons]

theorem reduce_shaped {entries : List ℕ} (h : Shaped entries) :
    Shaped (reduce entries).2 ∧ (reduce entries).1 ≤ 10 ∧
      (reduce entries).2.length = entries.length := by
  cases entries with
  | nil => exact h.elim
  | cons first rest =>
    have hx := intake_first_le h
    rw [reduce_cons]
    refine ⟨⟨?_, pass_reduced (by omega) rest⟩, ?_, by simp⟩ <;> omega

theorem value_nonneg {position : ℕ} (hp : 1 ≤ position) (entries : List ℕ) :
    0 ≤ value position entries := by
  induction entries generalizing position with
  | nil => exact le_rfl
  | cons entry rest ih =>
    have hw := (weight_pos hp).le
    have : 0 ≤ value (position + 1) rest := ih (by omega)
    rw [value]
    positivity

theorem value_lt {position : ℕ} {entries : List ℕ} (hp : 1 ≤ position)
    (h : Reduced position entries) :
    value position entries < 2 * (2 * position - 1) * weight position := by
  -- such a bound is the next one and the largest share of the first column
  induction entries generalizing position with
  | nil =>
    have hw := weight_pos hp
    have hp' : (1 : ℚ) ≤ position := by exact_mod_cast hp
    have : (0 : ℚ) < 2 * position - 1 := by linarith
    rw [value]
    positivity
  | cons entry rest ih =>
    have hrest := ih (by omega) h.2
    have hhand := weight_handed hp
    have hw := weight_pos hp
    have he : (entry : ℚ) ≤ 2 * position - 2 := by
      have : entry + 2 ≤ 2 * position := by have := h.1; omega
      have : ((entry + 2 : ℕ) : ℚ) ≤ (2 * position : ℕ) := by exact_mod_cast this
      push_cast at this
      linarith
    have hm := mul_le_mul_of_nonneg_right he hw.le
    rw [value]
    push_cast at hrest
    linarith

theorem value_shaped_lt {entries : List ℕ} (h : Shaped entries) : value 1 entries < 11 := by
  cases entries with
  | nil => exact h.elim
  | cons first rest =>
    have hrest := value_lt (by omega) h.2
    have hfirst : (first : ℚ) ≤ 9 := by exact_mod_cast h.1
    have hw2 : weight 2 = 1 / 3 := by norm_num [weight]
    rw [value, show weight 1 = 1 from rfl]
    push_cast at hrest
    rw [hw2] at hrest
    linarith

/-- A carry weighs at its position as much as it did where it was handed down, so nothing but the
carry out of the first column leaves the columns. -/
theorem value_pass {position : ℕ} (hp : 1 ≤ position) (entries : List ℕ) :
    10 * value position entries =
      (2 * position - 1) * weight position * (pass position entries).1 +
        value position (pass position entries).2 := by
  induction entries generalizing position with
  | nil => simp [pass, value]
  | cons entry rest ih =>
    have hrest := @ih (position + 1) (by omega)
    have hhand := weight_handed hp
    have hx : (intake position entry rest : ℚ) =
        10 * entry + (pass (position + 1) rest).1 * position := by
      simp only [intake]
      push_cast
      ring
    have hdiv : (intake position entry rest : ℚ) =
        (2 * position - 1) * (intake position entry rest / (2 * position - 1) : ℕ) +
          (intake position entry rest % (2 * position - 1) : ℕ) := by
      have hd := Nat.div_add_mod (intake position entry rest) (2 * position - 1)
      have hs : ((2 * position - 1 : ℕ) : ℚ) = 2 * position - 1 := by
        rw [Nat.cast_sub (by omega)]
        push_cast
        ring
      rw [← hs]
      exact_mod_cast hd.symm
    rw [pass_cons, value, value]
    push_cast at hrest ⊢
    linear_combination hrest + weight position * hdiv - weight position * hx -
      (pass (position + 1) rest).1 * hhand

theorem value_reduce {entries : List ℕ} (h : Shaped entries) :
    10 * value 1 entries = 10 * (reduce entries).1 + value 1 (reduce entries).2 := by
  cases entries with
  | nil => exact h.elim
  | cons first rest =>
    have hv := value_pass (le_refl 1) (first :: rest)
    have hx := Nat.div_add_mod (intake 1 first rest) 10
    have hx' : (10 : ℚ) * (intake 1 first rest / 10 : ℕ) + (intake 1 first rest % 10 : ℕ) =
        intake 1 first rest := by exact_mod_cast hx
    rw [pass_first] at hv
    rw [reduce_cons]
    simp only [value, show weight 1 = 1 from rfl] at hv ⊢
    push_cast at hv hx' ⊢
    linarith

theorem value_replicate (position count : ℕ) :
    value (position + 1) (List.replicate count 2) =
      partialSum (position + count) - partialSum position := by
  induction count generalizing position with
  | zero => simp [value]
  | succ count ih =>
    have hs := partialSum_succ position
    rw [List.replicate_succ, value, ih, show position + 1 + count = position + (count + 1) by omega]
    push_cast
    linarith

theorem shaped_replicate {count : ℕ} (h : 1 ≤ count) : Shaped (List.replicate count 2) := by
  obtain ⟨count, rfl⟩ := Nat.exists_eq_add_of_le' h
  have hr : ∀ position, 2 ≤ position → Reduced position (List.replicate count 2) := by
    induction count with
    | zero => exact fun _ _ => trivial
    | succ count ih => exact fun position hp => ⟨by omega, ih (by omega) _ (by omega)⟩
  exact ⟨by omega, hr 2 le_rfl⟩

theorem le_pass_carry {position bound : ℕ} (hp : 1 ≤ position) (entry : ℕ) (rest : List ℕ)
    (h : bound * (2 * position - 1) ≤ intake position entry rest) :
    bound ≤ (pass position (entry :: rest)).1 := by
  rw [pass_cons]
  exact (Nat.le_div_iff_mul_le (by omega)).2 h

theorem reduce_replicate {count : ℕ} (h : 4 ≤ count) : (reduce (List.replicate count 2)).1 = 3 := by
  obtain ⟨count, rfl⟩ := Nat.exists_eq_add_of_le' h
  have hs := shaped_replicate (show 1 ≤ count + 4 by omega)
  -- three columns are enough for a three, and 19 leaves room for no more
  have h4 : 2 ≤ (pass 4 (List.replicate (count + 1) 2)).1 :=
    le_pass_carry (by omega) _ _ (by rw [intake]; omega)
  have h3 : 5 ≤ (pass 3 (List.replicate (count + 2) 2)).1 :=
    le_pass_carry (by omega) _ _ (by rw [intake, show 3 + 1 = 4 from rfl]; omega)
  have h2 : 10 ≤ (pass 2 (List.replicate (count + 3) 2)).1 :=
    le_pass_carry (by omega) _ _ (by rw [intake, show 2 + 1 = 3 from rfl]; omega)
  have h2' := pass_carry_le (le_refl 2) (List.replicate_succ ▸ hs).2
  rw [List.replicate_succ, reduce_cons, intake_first]
  omega

end PiDigits.Radix
