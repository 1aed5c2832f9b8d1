import Mathlib.Algebra.Order.Floor.Semifield
import PiDigits.Proofs.SpigotRun

/-!
The digits are those of pi: those before the last are right, and the last is right or one too low.
They spell the sum of the series with as many terms as there are columns, and the terms left out
are too small to show.
-/

namespace PiDigits

open Series Filter
open scoped Topology

namespace Digit

theorem number_place {front back : List Digit} {d : Digit}
    (h : ∀ e ∈ front ++ d :: back, e.IsDecimal) :
    number (front ++ d :: back) / 10 ^ back.length % 10 = d.value.toNat := by
  have hback : number back < 10 ^ back.length := number_lt fun e he => h e (by simp [he])
  have hd : d.value.toNat ≤ 9 := UInt8.le_iff_toNat_le.1 (h d (by simp))
  have hsplit : number (front ++ d :: back) =
      number back + (10 * number front + d.value.toNat) * 10 ^ back.length := by
    rw [List.append_cons, number_append, number_snoc]
    ring
  rw [hsplit, Nat.add_mul_div_right _ _ (by positivity), Nat.div_eq_of_lt hback]
  omega

end Digit

theorem floor_eq_or {α : Type} [Field α] [LinearOrder α] [IsStrictOrderedRing α]
    [FloorSemiring α] {k : ℕ} {x : α} (hk : k ≤ x) (hx : x < k + 2) :
    ⌊x⌋₊ = k ∨ ⌊x⌋₊ = k + 1 := by
  have hlow : k ≤ ⌊x⌋₊ := Nat.le_floor hk
  have hhigh : ⌊x⌋₊ < k + 2 := by
    rw [Nat.floor_lt (k.cast_nonneg.trans hk)]
    exact_mod_cast hx
  omega

namespace Exact

variable {n : ℕ} {t : Exact}

theorem two_mul_ten_pow_le : ∀ n : ℕ, 2 * 10 ^ n ≤ 9 * 2 ^ (10 * n / 3)
  | 0 => by norm_num
  | 1 => by norm_num
  | 2 => by norm_num
  | n + 3 => by
    have ih := two_mul_ten_pow_le n
    rw [show 10 * (n + 3) / 3 = 10 * n / 3 + 10 by omega, pow_add, pow_add]
    omega

theorem tail_le (hn : 1 ≤ n) : (10 : ℚ) ^ (n - 1) * (2 * weight (columnCount n)) ≤ 9 / 10 := by
  obtain ⟨k, rfl⟩ := Nat.exists_eq_add_of_le' hn
  have hw := weight_le_pow (10 * (k + 1) / 3)
  have hp : (2 : ℚ) * 10 ^ (k + 1) ≤ 9 * 2 ^ (10 * (k + 1) / 3) := by
    exact_mod_cast two_mul_ten_pow_le (k + 1)
  have hone : (2 : ℚ) ^ (10 * (k + 1) / 3) * (1 / 2) ^ (10 * (k + 1) / 3) = 1 := by
    rw [← mul_pow]
    norm_num
  rw [columnCount, Nat.add_sub_cancel]
  calc (10 : ℚ) ^ k * (2 * weight (10 * (k + 1) / 3 + 1))
      ≤ 10 ^ k * (2 * (1 / 2) ^ (10 * (k + 1) / 3)) := by gcongr
    _ = 2 * 10 ^ (k + 1) * (1 / 2) ^ (10 * (k + 1) / 3) / 10 := by ring
    _ ≤ 9 * 2 ^ (10 * (k + 1) / 3) * (1 / 2) ^ (10 * (k + 1) / 3) / 10 := by gcongr
    _ = 9 / 10 := by rw [mul_assoc, hone, mul_one]

namespace Ended

variable (he : t.Ended n) (hc : t.Counted n) (hn : 1 ≤ n)

include he hc hn

variable (hs : t.Sound n) (ht : t.Spelled)

include hs ht

theorem number_output :
    Digit.number t.output % 10 ≤ 8 ∧
      (Digit.number t.output + 1) * 10 ^ t.waiting.nines = PiDigits.spelled t.carries + 1 := by
  have hp := hs.predigit_le
  rw [(he.output hc hn).1, Digit.number_snoc, Digit.value_ofNat (by omega), ← ht.spelled,
    Waiting.worth]
  refine ⟨by omega, ?_⟩
  ring

theorem number_bounds (hv : t.Valued n) :
    (Digit.number t.output : ℚ) ≤
        10 ^ (n - t.waiting.nines - 1) * partialSum (columnCount n) ∧
      10 ^ (n - t.waiting.nines - 1) *
          (partialSum (columnCount n) + 2 * weight (columnCount n)) <
        Digit.number t.output + 2 := by
  have hcount := (he.output hc hn).2
  have hnonneg := Radix.value_nonneg (le_refl 1) t.columns
  have hlt := Radix.value_shaped_lt hs.shaped
  have htail := tail_le hn
  have hnumber : ((Digit.number t.output : ℚ) + 1) * 10 ^ t.waiting.nines =
      PiDigits.spelled t.carries + 1 := by
    exact_mod_cast (he.number_output hc hn hs ht).2
  have hlength : 1 ≤ t.output.length := by
    rw [(he.output hc hn).1, List.length_append, List.length_singleton]
    omega
  have hone : (1 : ℚ) ≤ 10 ^ t.waiting.nines := one_le_pow₀ (by norm_num)
  have hpow : (10 : ℚ) ^ (n - 1) =
      10 ^ (n - t.waiting.nines - 1) * 10 ^ t.waiting.nines := by
    rw [← pow_add]
    congr 1
    omega
  have hvalued : (10 : ℚ) ^ (n - 1) * partialSum (columnCount n) =
      PiDigits.spelled t.carries + Radix.value 1 t.columns / 10 := by
    have h : (10 : ℚ) ^ t.carries.length * partialSum (columnCount n) = _ := hv
    rw [he.carries, ← Nat.sub_add_cancel hn, pow_succ, Nat.sub_add_cancel hn] at h
    linarith
  have hpos : (0 : ℚ) < 10 ^ t.waiting.nines := by positivity
  rw [hpow] at hvalued htail
  constructor
  · refine le_of_mul_le_mul_right ?_ hpos
    linarith
  · refine lt_of_mul_lt_mul_right ?_ hpos.le
    linarith

theorem floor_number {α : Type} [Field α] [LinearOrder α] [IsStrictOrderedRing α]
    [FloorSemiring α] (hv : t.Valued n) {x : α} (hlow : (partialSum (columnCount n) : α) ≤ x)
    (hhigh : x ≤ (partialSum (columnCount n) : α) + 2 * (weight (columnCount n) : α)) :
    ⌊10 ^ (n - t.waiting.nines - 1) * x⌋₊ = Digit.number t.output ∨
      ⌊10 ^ (n - t.waiting.nines - 1) * x⌋₊ = Digit.number t.output + 1 := by
  obtain ⟨hbelow, habove⟩ := he.number_bounds hc hn hs ht hv
  have hbelow' : (Digit.number t.output : α) ≤
      10 ^ (n - t.waiting.nines - 1) * (partialSum (columnCount n) : α) := by
    exact_mod_cast hbelow
  have habove' : 10 ^ (n - t.waiting.nines - 1) *
      ((partialSum (columnCount n) : α) + 2 * (weight (columnCount n) : α)) <
        Digit.number t.output + 2 := by
    exact_mod_cast habove
  apply floor_eq_or
  · refine hbelow'.trans ?_
    gcongr
  · refine lt_of_le_of_lt ?_ habove'
    gcongr

end Ended

end Exact

theorem div_ten_pow_eq {k x j : ℕ} (hk : k % 10 ≤ 8) (hx : x = k ∨ x = k + 1) (hj : 1 ≤ j) :
    x / 10 ^ j = k / 10 ^ j := by
  obtain ⟨j, rfl⟩ := Nat.exists_eq_add_of_le' hj
  have hten : x / 10 = k / 10 := by omega
  rw [pow_succ', ← Nat.div_div_eq_div_mul, ← Nat.div_div_eq_div_mul, hten]

/-- The digits of pi that a computation releases when `m` nines are left after `n` sweeps. -/
structure TrueDigits (n m : ℕ) (digits : List Digit) : Prop where
  nines_lt : m < n
  length : digits.length = n - m
  decimal : ∀ d ∈ digits, d.IsDecimal
  last_le : Digit.number digits % 10 ≤ 8
  floor_partialSum : ∀ count, columnCount n ≤ count →
    ⌊10 ^ (n - m - 1) * partialSum count⌋₊ = Digit.number digits ∨
      ⌊10 ^ (n - m - 1) * partialSum count⌋₊ = Digit.number digits + 1
  floor_pi :
    ⌊10 ^ (n - m - 1) * Real.pi⌋₊ = Digit.number digits ∨
      ⌊10 ^ (n - m - 1) * Real.pi⌋₊ = Digit.number digits + 1
  place : ∀ i (hi : i + 1 < digits.length), digits[i].value.toNat = ⌊10 ^ i * Real.pi⌋₊ % 10
  last : ∀ d ∈ digits.getLast?,
    ⌊10 ^ (n - m - 1) * Real.pi⌋₊ % 10 = d.value.toNat ∨
      ⌊10 ^ (n - m - 1) * Real.pi⌋₊ % 10 = d.value.toNat + 1

theorem place_of_floor {digits : List Digit} (hd : ∀ d ∈ digits, d.IsDecimal)
    (hlast : Digit.number digits % 10 ≤ 8) {x : ℝ}
    (hx : ⌊10 ^ (digits.length - 1) * x⌋₊ = Digit.number digits ∨
      ⌊10 ^ (digits.length - 1) * x⌋₊ = Digit.number digits + 1)
    (i : ℕ) (hi : i + 1 < digits.length) : digits[i].value.toNat = ⌊10 ^ i * x⌋₊ % 10 := by
  have hsplit : digits = digits.take i ++ digits[i] :: digits.drop (i + 1) := by simp
  have hback : (digits.drop (i + 1)).length = digits.length - 1 - i := by
    rw [List.length_drop]
    omega
  have hscale : (10 : ℝ) ^ i * x =
      10 ^ (digits.length - 1) * x / (10 ^ (digits.length - 1 - i) : ℕ) := by
    have hpow : (10 : ℝ) ^ (digits.length - 1) = 10 ^ i * 10 ^ (digits.length - 1 - i) := by
      rw [← pow_add]
      congr 1
      omega
    rw [hpow]
    push_cast
    field_simp
  have hplace := Digit.number_place (d := digits[i]) (hsplit ▸ hd)
  rw [← hsplit, hback] at hplace
  rw [hscale, Nat.floor_div_natCast, div_ten_pow_eq hlast hx (by omega), hplace]

theorem Exact.Ended.trueDigits {n : ℕ} {t : Exact} (he : t.Ended n) (hc : t.Counted n)
    (hs : t.Sound n) (ht : t.Spelled) (hv : t.Valued n) (hn : 1 ≤ n) :
    TrueDigits n t.waiting.nines t.output := by
  obtain ⟨hout, hcount⟩ := he.output hc hn
  have hlast := (he.number_output hc hn hs ht).1
  have hdecimal : ∀ d ∈ t.output, d.IsDecimal := fun d hd => hs.isDecimal_output hd
  have hlength : 1 ≤ t.output.length := by
    rw [hout, List.length_append, List.length_singleton]
    omega
  have hpi := he.floor_number hc hn hs ht hv (partialSum_le_pi _) (pi_le (columnCount_pos n))
  exact {
    nines_lt := by omega
    length := by omega
    decimal := hdecimal
    last_le := hlast
    floor_partialSum := by
      intro count hl
      have hlow := partialSum_strictMono.monotone hl
      have hhigh := partialSum_le_of_le (columnCount_pos n) hl
      exact he.floor_number hc hn hs ht hv (by exact_mod_cast hlow) (by exact_mod_cast hhigh)
    floor_pi := hpi
    place := place_of_floor hdecimal hlast (by rwa [← hcount, Nat.add_sub_cancel] at hpi)
    last := by
      intro d hd
      rw [hout, List.getLast?_append, List.getLast?_singleton] at hd
      obtain rfl : Digit.ofNat t.waiting.predigit = d := by simpa using hd
      have hmod : Digit.number t.output % 10 = (Digit.ofNat t.waiting.predigit).value.toNat := by
        rw [hout, Digit.number_snoc, Digit.value_ofNat (hs.predigit_le.trans (by omega))]
        have := hs.predigit_le
        omega
      omega }

theorem Spigot.rest_trueDigits (a : Arithmetic) (digitCount : UInt64) (h : Admissible digitCount)
    (hn : 1 ≤ digitCount.toNat) :
    StrictMono partialSum ∧ Tendsto (fun count => (partialSum count : ℝ)) atTop (𝓝 Real.pi) ∧
      ∃ (s : Spigot Unit) (digits : List Digit) (s' : Spigot Unit) (m : ℕ),
        start a.machine () digitCount = .ok s ∧ s.policy = .resetBoth ∧
        rest s = .ok digits s' ∧ s'.fault? = none ∧ (∃ s'', next s' = .ok none s'') ∧
        s'.held.nines.toInt = m ∧ TrueDigits digitCount.toNat m digits := by
  refine ⟨partialSum_strictMono, partialSum_tendsto_pi, ?_⟩
  obtain ⟨s, s', hs, hpolicy, hrest, hfollows, hended, hnext⟩ :=
    rest_start () h (h.serves_machine a) .resetBoth
  have hsound := Exact.sound_final digitCount.toNat .resetBoth
  have hsmall := hfollows.serves.small
  have hl := Exact.lt_columnCount digitCount.toNat
  have hnines := hsound.nines_le
  have hcarries := hsound.carries_le
  refine ⟨s, _, s', _, hs, hpolicy, ?_, hfollows.fault?, hnext, ?_, hended.trueDigits
    (Exact.counted_final _ _) hsound (Exact.spelled_final _) (Exact.valued_final _ _) hn⟩
  · rw [← hrest, withPolicy, ← hpolicy]
  · rw [hfollows.held, Waiting.toHeld, Int64.toInt_ofNat_of_lt (by omega)]

theorem Spigot.rest_trueDigits_counting_hundred :
    Admissible 100 ∧ 1 ≤ (100 : UInt64).toNat ∧
      ∃ (s : Spigot Unit) (digits : List Digit) (s' : Spigot Unit) (m : ℕ),
        start Arithmetic.counting.machine () 100 = .ok s ∧ rest s = .ok digits s' ∧
        TrueDigits 100 m digits := by
  obtain ⟨-, -, s, digits, s', m, hs, -, hrest, -, -, -, hdigits⟩ :=
    rest_trueDigits .counting 100 (by decide) (by decide)
  exact ⟨by decide, by decide, s, digits, s', m, hs, hrest, hdigits⟩

end PiDigits
