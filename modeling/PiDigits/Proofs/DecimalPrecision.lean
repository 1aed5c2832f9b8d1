import PiDigits.Proofs.MachineAgreement
import PiDigits.Proofs.SpigotRun

/-!
Expansions as decimal numbers. A decimal number has places for twenty-nine digits, but its mantissa
has not room for every number of so many digits: an expansion whose first digits spell too large a
number has no decimal number. One that begins like pi always has.
-/

namespace PiDigits

namespace Digit

theorem number_cons (d : Digit) (digits : List Digit) :
    number (d :: digits) = d.value.toNat * 10 ^ digits.length + number digits := by
  rw [← List.singleton_append, number_append]
  simp [number]

theorem foldl_eq (n : ℕ) (digits : List Digit) :
    digits.foldl (fun n d => n * 10 + d.value.toNat) n =
      n * 10 ^ digits.length + number digits := by
  induction digits generalizing n with
  | nil => simp
  | cons d digits ih =>
    rw [List.foldl_cons, ih, number_cons, List.length_cons, pow_succ]
    ring

end Digit

def Decimal.value (d : Decimal) : ℚ := d.mantissa / 10 ^ d.scale

theorem Decimal.value_mul (d : Decimal) : d.value * 10 ^ d.scale = d.mantissa :=
  div_mul_cancel₀ _ (by positivity)

namespace Expansion

variable {e : Expansion}

theorem toDecimal?_nil (h : e.digits = []) : e.toDecimal? = none := by
  rw [toDecimal?, h]
  rfl

theorem toDecimal?_eq (h : e.digits ≠ []) :
    e.toDecimal? =
      if Digit.number (e.digits.take 29) < 2 ^ 96 then
        some ⟨Digit.number (e.digits.take 29), min (e.length - 1) 28⟩
      else none := by
  obtain ⟨whole, fraction, hdigits⟩ := List.exists_cons_of_ne_nil h
  have hlength : e.length = fraction.length + 1 := by
    rw [length, hdigits, List.length_cons]
  have hscale : (fraction.take 28).length = min (e.length - 1) 28 := by
    rw [List.length_take, hlength]
    omega
  have hnumber : (fraction.take 28).foldl (fun n d => n * 10 + d.value.toNat) whole.value.toNat =
      Digit.number (whole :: fraction.take 28) := by
    rw [Digit.foldl_eq, Digit.number_cons]
  have hlimit : Decimal.mantissaLimit + 1 = 2 ^ 96 := rfl
  rw [toDecimal?, hdigits, Decimal.scaleLimit, List.take_succ_cons]
  simp only [hnumber, hscale, Decimal.make?, Decimal.scaleLimit]
  congr 1
  rw [eq_iff_iff]
  omega

theorem number_take_lt (h : ∀ d ∈ e.digits, d.IsDecimal) (hlength : e.length ≤ 28) :
    Digit.number (e.digits.take 29) < 2 ^ 96 := by
  have hlt := Digit.number_lt h
  have hpow : 10 ^ e.digits.length ≤ 10 ^ 28 := Nat.pow_le_pow_right (by norm_num) hlength
  rw [List.take_of_length_le (by rw [length] at hlength; omega)]
  omega

theorem number_take_lt_of_first {first : Digit} {rest : List Digit}
    (h : ∀ d ∈ rest, d.IsDecimal) (hfirst : first.value ≤ 6) :
    Digit.number ((first :: rest).take 29) < 2 ^ 96 := by
  have hlt := Digit.number_lt fun d hd => h d (List.mem_of_mem_take (i := 28) hd)
  have hpow : 10 ^ (rest.take 28).length ≤ 10 ^ 28 :=
    Nat.pow_le_pow_right (by norm_num) (List.length_take_le 28 rest)
  have hhead : first.value.toNat ≤ 6 := hfirst
  rw [List.take_succ_cons, Digit.number_cons]
  calc first.value.toNat * 10 ^ (rest.take 28).length + Digit.number (rest.take 28)
      < (first.value.toNat + 1) * 10 ^ (rest.take 28).length := by linarith
    _ ≤ 7 * 10 ^ 28 := Nat.mul_le_mul (by omega) hpow
    _ < 2 ^ 96 := by norm_num

theorem take_scale :
    e.digits.take (min (e.length - 1) 28 + 1) = e.digits.take 29 := by
  rw [List.take_eq_take_iff, ← length]
  omega

theorem toDecimal?_eq_none_iff (h : ∀ d ∈ e.digits, d.IsDecimal) :
    e.toDecimal? = none ↔
      e.digits = [] ∨ 28 < e.length ∧ 2 ^ 96 ≤ Digit.number (e.digits.take 29) := by
  by_cases hempty : e.digits = []
  · simp [hempty, toDecimal?_nil]
  · have hshort : e.length ≤ 28 → Digit.number (e.digits.take 29) < 2 ^ 96 := number_take_lt h
    rw [toDecimal?_eq hempty]
    simp only [hempty, false_or]
    split_ifs with hfits
    · constructor
      · intro hnone
        cases hnone
      · rintro ⟨-, hlarge⟩
        omega
    · simp only [true_iff]
      omega

theorem spells_of_toDecimal? {d : Decimal} (hd : e.toDecimal? = some d) :
    d.scale = min (e.length - 1) 28 ∧
      d.value * 10 ^ d.scale = Digit.number (e.digits.take (d.scale + 1)) := by
  by_cases hempty : e.digits = []
  · rw [toDecimal?_nil hempty] at hd
    cases hd
  · rw [toDecimal?_eq hempty] at hd
    split_ifs at hd with hfits
    cases hd
    rw [Decimal.value_mul, take_scale]
    exact ⟨rfl, rfl⟩

/-- The digits that fill the places decide whether there is a decimal number, and it spells all of
them; if the first is six or less there is one. -/
theorem toDecimal?_limits (e : Expansion) (h : ∀ d ∈ e.digits, d.IsDecimal) :
    (e.toDecimal? = none ↔
      e.digits = [] ∨ 28 < e.length ∧ 2 ^ 96 ≤ Digit.number (e.digits.take 29)) ∧
    (∀ d, e.toDecimal? = some d →
      d.scale = min (e.length - 1) 28 ∧
        d.value * 10 ^ d.scale = Digit.number (e.digits.take (d.scale + 1))) ∧
    ∀ first rest, e.digits = first :: rest → first.value ≤ 6 → ∃ d, e.toDecimal? = some d := by
  refine ⟨toDecimal?_eq_none_iff h, fun d => spells_of_toDecimal?, ?_⟩
  intro first rest hdigits hfirst
  refine ⟨_, (toDecimal?_eq (by simp [hdigits])).trans (if_pos ?_)⟩
  rw [hdigits] at h ⊢
  exact number_take_lt_of_first (List.forall_mem_cons.mp h).2 hfirst

theorem toDecimal?_limits_largest :
    (∃ d, (ofText "79228162514264337593543950335").toDecimal? = some d ∧ d.scale = 28 ∧
      d.value * 10 ^ 28 = 79228162514264337593543950335) ∧
    (ofText "79228162514264337593543950336").toDecimal? = none := by
  constructor
  · obtain ⟨hnone, hsome, -⟩ :=
      toDecimal?_limits (ofText "79228162514264337593543950335") (by decide +kernel)
    cases hd : (ofText "79228162514264337593543950335").toDecimal? with
    | none =>
      exact absurd (hnone.mp hd) (by decide +kernel)
    | some d =>
      obtain ⟨hscale, hvalue⟩ := hsome d hd
      have hscale' : d.scale = 28 := hscale.trans (by decide +kernel)
      rw [hscale'] at hvalue
      refine ⟨d, rfl, hscale', hvalue.trans ?_⟩
      have hnumber : Digit.number ((ofText "79228162514264337593543950335").digits.take 29) =
          79228162514264337593543950335 := by
        decide +kernel
      rw [hnumber]
      norm_num
  · rw [(toDecimal?_limits (ofText "79228162514264337593543950336") (by decide +kernel)).1]
    decide +kernel

end Expansion

theorem Spigot.collect_after_take (a : Arithmetic) {digitCount : UInt64}
    (h : Admissible digitCount) (count : ℕ) :
    ∃ (s : Spigot Unit) (digits : List Digit) (s' s'' : Spigot Unit),
      start a.machine () digitCount = .ok s ∧ take count s = .ok digits s' ∧
      collect s' = .ok (.ok ⟨(((Exact.start digitCount.toNat).take digitCount.toNat count).2.take
        digitCount.toNat Machine.roundLimit).1⟩) s'' := by
  obtain ⟨s, hs, hfollows⟩ := start_follows () digitCount (h.serves_machine a)
  obtain ⟨digits, s', htake, -, hfollows'⟩ :=
    takeAfter_ends hfollows (Exact.sound_start _) count #[]
  obtain ⟨_, s'', hcollect, rfl, -⟩ :=
    collect_ends hfollows' ((Exact.kept_sound _).take (Exact.sound_start _) count)
  exact ⟨s, digits, s', s'', hs, htake, hcollect⟩

theorem Expansion.exists_toDecimal?_eq_none :
    ∃ (s : Spigot Unit) (digits : List Digit) (s' s'' : Spigot Unit) (e : Expansion),
      Spigot.start Arithmetic.native.machine () 34 = .ok s ∧ Spigot.take 5 s = .ok digits s' ∧
      Spigot.collect s' = .ok (.ok e) s'' ∧ e = ofText "92653589793238462643383279502" ∧
      e.digits ≠ [] ∧ (∀ d ∈ e.digits, d.IsDecimal) ∧ e.toDecimal? = none := by
  obtain ⟨s, digits, s', s'', hs, htake, hcollect⟩ :=
    Spigot.collect_after_take .native (show Spigot.Admissible 34 by decide) 5
  have he : (((Exact.start 34).take 34 5).2.take 34 Machine.roundLimit).1 =
      (ofText "92653589793238462643383279502").digits := by
    decide +kernel
  refine ⟨s, digits, s', s'', _, hs, htake, hcollect, congrArg Expansion.mk he, ?_⟩
  simp only [UInt64.reduceToNat, he]
  decide +kernel

end PiDigits
