import Mathlib.Analysis.SpecialFunctions.Integrals.Basic

/-!
The series `2 * (1 + 1/3 + (1*2)/(3*5) + ...)` for pi. Its terms are the weights of the columns,
so the columns of a fresh computation hold a partial sum, and what the columns beyond the last
would add is less than twice the last weight.
-/

namespace PiDigits.Series

open Filter MeasureTheory
open scoped Topology

def weight : ℕ → ℚ
  | 0 => 0
  | 1 => 1
  | i + 2 => weight (i + 1) * (i + 1) / (2 * i + 3)

def partialSum (count : ℕ) : ℚ := 2 * ∑ i ∈ Finset.Icc 1 count, weight i

theorem weight_succ {i : ℕ} (hi : 1 ≤ i) : weight (i + 1) = weight i * i / (2 * i + 1) := by
  obtain ⟨j, rfl⟩ := Nat.exists_eq_add_of_le' hi
  rw [weight]
  push_cast
  ring

theorem weight_pos {i : ℕ} (hi : 1 ≤ i) : 0 < weight i := by
  induction i, hi using Nat.le_induction with
  | base => norm_num [weight]
  | succ i hi ih =>
    have hi' : (0 : ℚ) < i := by exact_mod_cast hi
    rw [weight_succ hi]
    positivity

/-- What makes the carries telescope: a carry counts the same for the column that hands it down
and for the column that takes it in. -/
theorem weight_handed {i : ℕ} (hi : 1 ≤ i) : weight i * i = (2 * i + 1) * weight (i + 1) := by
  rw [weight_succ hi]
  field_simp

theorem weight_succ_le_half {i : ℕ} (hi : 1 ≤ i) : weight (i + 1) ≤ weight i / 2 := by
  have hw := weight_pos hi
  have hh := weight_handed hi
  have hs := weight_pos (show 1 ≤ i + 1 by omega)
  have hi' : (1 : ℚ) ≤ i := by exact_mod_cast hi
  nlinarith

theorem weight_le_pow (i : ℕ) : weight (i + 1) ≤ (1 / 2) ^ i := by
  induction i with
  | zero => norm_num [weight]
  | succ i ih =>
    have hh := weight_succ_le_half (show 1 ≤ i + 1 by omega)
    rw [pow_succ]
    linarith

theorem partialSum_succ (count : ℕ) :
    partialSum (count + 1) = partialSum count + 2 * weight (count + 1) := by
  rw [partialSum, partialSum, Finset.sum_Icc_succ_top (by omega)]
  ring

theorem partialSum_strictMono : StrictMono partialSum := by
  apply strictMono_nat_of_lt_succ
  intro count
  have := weight_pos (show 1 ≤ count + 1 by omega)
  rw [partialSum_succ]
  linarith

theorem partialSum_le_of_le {l count : ℕ} (hl : 1 ≤ l) (h : l ≤ count) :
    partialSum count ≤ partialSum l + 2 * weight l := by
  suffices partialSum count + 2 * weight count ≤ partialSum l + 2 * weight l by
    have := weight_pos (hl.trans h)
    linarith
  induction count, h using Nat.le_induction with
  | base => exact le_rfl
  | succ count hc ih =>
    have := weight_succ_le_half (hl.trans hc)
    rw [partialSum_succ]
    linarith

theorem weight_eq_prod (k : ℕ) :
    (weight (k + 1) : ℝ) = (1 / 2) ^ k * ∏ i ∈ Finset.range k, (2 * (i : ℝ) + 2) / (2 * i + 3) := by
  induction k with
  | zero => norm_num [weight]
  | succ k ih =>
    rw [Finset.prod_range_succ, pow_succ, weight_succ (by omega)]
    push_cast
    rw [ih]
    field_simp
    ring

theorem two_mul_weight_eq_integral (k : ℕ) :
    2 * (weight (k + 1) : ℝ) =
      ∫ x in (0 : ℝ)..Real.pi, Real.sin x * (Real.sin x ^ 2 / 2) ^ k := by
  have he : ∀ x : ℝ, Real.sin x * (Real.sin x ^ 2 / 2) ^ k =
      (1 / 2) ^ k * Real.sin x ^ (2 * k + 1) := by
    intro x
    rw [div_eq_mul_one_div, mul_pow, ← pow_mul, pow_succ]
    ring
  simp only [he, intervalIntegral.integral_const_mul, integral_sin_pow_odd, weight_eq_prod]
  ring

theorem integral_closed_form :
    (∫ x in (0 : ℝ)..Real.pi, Real.sin x / (1 - Real.sin x ^ 2 / 2)) = Real.pi := by
  have hpos : ∀ x : ℝ, 0 < 1 - Real.sin x ^ 2 / 2 := by
    intro x
    nlinarith [Real.sin_sq_le_one x]
  have hderiv : ∀ x ∈ Set.uIcc (0 : ℝ) Real.pi,
      HasDerivAt (fun x => -2 * Real.arctan (Real.cos x))
        (Real.sin x / (1 - Real.sin x ^ 2 / 2)) x := by
    intro x _
    have h := ((Real.hasDerivAt_cos x).arctan).const_mul (-2)
    have hc : 1 - Real.sin x ^ 2 / 2 = (1 + Real.cos x ^ 2) / 2 := by
      linarith [Real.sin_sq_add_cos_sq x]
    have he : Real.sin x / (1 - Real.sin x ^ 2 / 2) =
        -2 * (1 / (1 + Real.cos x ^ 2) * -Real.sin x) := by
      rw [hc]
      field_simp
    rwa [he]
  have hint : IntervalIntegrable (fun x => Real.sin x / (1 - Real.sin x ^ 2 / 2)) volume 0
      Real.pi := by
    apply Continuous.intervalIntegrable
    exact Real.continuous_sin.div (by fun_prop) fun x => (hpos x).ne'
  rw [intervalIntegral.integral_eq_sub_of_hasDerivAt hderiv hint]
  simp only [Real.cos_pi, Real.cos_zero, Real.arctan_neg, Real.arctan_one]
  ring

theorem hasSum_two_mul_weight : HasSum (fun k => 2 * (weight (k + 1) : ℝ)) Real.pi := by
  have hsq : ∀ x : ℝ, |Real.sin x ^ 2 / 2| ≤ 1 / 2 := by
    intro x
    rw [abs_of_nonneg (by positivity)]
    linarith [Real.sin_sq_le_one x]
  have hgeom : Summable fun k : ℕ => ((1 : ℝ) / 2) ^ k :=
    summable_geometric_of_lt_one (by norm_num) (by norm_num)
  have hbound : ∀ (k : ℕ) (x : ℝ), ‖Real.sin x * (Real.sin x ^ 2 / 2) ^ k‖ ≤ (1 / 2) ^ k := by
    intro k x
    rw [norm_mul, norm_pow, Real.norm_eq_abs, Real.norm_eq_abs]
    calc |Real.sin x| * |Real.sin x ^ 2 / 2| ^ k
        ≤ 1 * (1 / 2) ^ k := by
          gcongr
          · exact Real.abs_sin_le_one x
          · exact hsq x
      _ = (1 / 2) ^ k := one_mul _
  have hsum : ∀ x : ℝ, HasSum (fun k => Real.sin x * (Real.sin x ^ 2 / 2) ^ k)
      (Real.sin x / (1 - Real.sin x ^ 2 / 2)) := by
    intro x
    have h := hasSum_geometric_of_abs_lt_one (lt_of_le_of_lt (hsq x) (by norm_num))
    simpa only [div_eq_mul_inv] using h.mul_left (Real.sin x)
  have h := intervalIntegral.hasSum_integral_of_dominated_convergence (μ := volume) (a := 0)
    (b := Real.pi) (fun k _ => ((1 : ℝ) / 2) ^ k)
    (fun k => Continuous.aestronglyMeasurable (by fun_prop))
    (fun k => Eventually.of_forall fun x _ => hbound k x)
    (Eventually.of_forall fun _ _ => hgeom) intervalIntegrable_const
    (Eventually.of_forall fun x _ => hsum x)
  rw [integral_closed_form] at h
  simpa only [two_mul_weight_eq_integral] using h

theorem partialSum_tendsto_pi :
    Tendsto (fun count => (partialSum count : ℝ)) atTop (𝓝 Real.pi) := by
  have he : ∀ count, (partialSum count : ℝ) =
      ∑ k ∈ Finset.range count, 2 * (weight (k + 1) : ℝ) := by
    intro count
    induction count with
    | zero => simp [partialSum]
    | succ count ih =>
      rw [partialSum_succ, Finset.sum_range_succ, ← ih]
      push_cast
      ring
  simpa only [he] using hasSum_two_mul_weight.tendsto_sum_nat

theorem partialSum_le_pi (count : ℕ) : (partialSum count : ℝ) ≤ Real.pi := by
  have hm : Monotone fun count => (partialSum count : ℝ) :=
    fun _ _ h => Rat.cast_le.mpr (partialSum_strictMono.monotone h)
  exact hm.ge_of_tendsto partialSum_tendsto_pi count

theorem pi_le {l : ℕ} (hl : 1 ≤ l) : Real.pi ≤ partialSum l + 2 * weight l := by
  apply le_of_tendsto partialSum_tendsto_pi
  filter_upwards [eventually_ge_atTop l] with count hc
  exact_mod_cast partialSum_le_of_le hl hc

end PiDigits.Series
