import PiDigits.Proofs.StepOutcomes
import PiDigits.Proofs.SpigotRun
import PiDigits.Settings

/-!
How a computation comes by its columns, for every digit count. The number of columns is worked out
twice, on the machine and as a count without sign, and the machine's own product may wrap; a
computation is set up only where both are the true number and the array has room.
-/

namespace PiDigits

variable {σ : Type}

namespace Word

theorem toInt_ofNat_of_le {k : ℕ} (h : 2 ^ 63 ≤ k) (h' : k < 2 ^ 64) :
    (Int64.ofNat k).toInt = k - 2 ^ 64 := by
  rw [Int64.toInt_ofNat', show Int64.size = 2 ^ 64 from rfl, Int.bmod_def]
  omega

theorem toInt_eq_bmod (x : Word) : x.toInt = (x.toCount.toNat : ℤ).bmod (2 ^ 64) := by
  conv_lhs => rw [← ofCount_toCount x, Spigot.ofCount_eq]
  exact Int64.toInt_ofNat'

theorem two_pow_le_toCount {x : Word} (h : x < 0) : 2 ^ 63 ≤ x.toCount.toNat := by
  have hx := lt_zero_iff.1 h
  have hlt := x.toCount.toNat_lt
  rw [toInt_eq_bmod, Int.bmod_def] at hx
  omega

end Word

namespace Arithmetic

variable (a : Arithmetic) (memory : σ)

theorem multiply_ten (x : Word) : a.machine.multiply 10 x memory = .ok (10 * x, memory) := by
  cases a with
  | native => rfl
  | counting =>
    have hx : Counting.multiply 10 x = 10 * x := by
      rw [Counting.multiply_eq_mul_iff]
      by_cases hm : x = Int64.minValue
      · exact .inr (.inr ⟨hm, by decide⟩)
      · exact .inl ⟨by decide, hm⟩
    rw [← hx]
    rfl

theorem divide_three (x : Word) :
    ∃ q, a.machine.divide x 3 memory = .ok (q, memory) ∧ (x ≠ Int64.minValue → q = x / 3) := by
  cases a with
  | native => exact ⟨x / 3, rfl, fun _ => rfl⟩
  | counting =>
    have hmachine {q : Word} (hq : Counting.divide x 3 = .ok q) :
        (counting.machine : Machine σ).divide x 3 memory = .ok (q, memory) := by
      change (liftM (Counting.divide x 3) : Work σ Word) memory = _
      rw [hq]
      rfl
    by_cases hm : x = Int64.minValue
    · subst hm
      obtain ⟨q, hq, -, -⟩ := Counting.divide_minValue_ends (y := 3) (by decide) (by decide)
      exact ⟨q, hmachine hq, fun h => absurd rfl h⟩
    · exact ⟨x / 3, hmachine (Counting.divide_eq_div hm (by decide) (by decide)), fun _ => rfl⟩

theorem increment_eq (x : Word) : a.machine.increment x memory = .ok (x + 1, memory) := by
  cases a <;> rfl

end Arithmetic

namespace Spigot

theorem product_eq (digitCount : UInt64) :
    10 * Word.ofCount digitCount = Int64.ofNat (10 * digitCount.toNat) := by
  rw [ofCount_eq, Int64.ofNat_mul]
  rfl

theorem third_add_one {n : ℕ} (h : 10 * n < 2 ^ 63) :
    Int64.ofNat (10 * n) / 3 + 1 = Int64.ofNat (columnCount n) := by
  rw [columnCount, Int64.ofNat_add, Int64.ofNat_div h (by omega)]
  rfl

theorem third_add_one_lt_zero {n : ℕ} (h : 2 ^ 63 ≤ 10 * n) (h' : 10 * n < 2 ^ 64) :
    Int64.ofNat (10 * n) / 3 + 1 < 0 := by
  have hproduct := Word.toInt_ofNat_of_le h h'
  have hthird : (Int64.ofNat (10 * n) / 3).toInt = -((2 ^ 64 - 10 * n) / 3 : ℤ) := by
    rw [Int64.toInt_div_of_ne_right _ _ (by decide), hproduct, ← Int.neg_sub, Int.neg_tdiv,
      Int.tdiv_eq_ediv_of_nonneg (by omega)]
    rfl
  have hneg : Int64.ofNat (10 * n) / 3 < 0 := by
    rw [Word.lt_zero_iff]
    omega
  rw [Word.lt_zero_iff, Word.toInt_add_one hneg]
  omega

theorem columnWord_ends (a : Arithmetic) (memory : σ) (digitCount : UInt64) :
    ∃ size, columnWord a.machine digitCount memory = .ok (size, memory) ∧
      (10 * digitCount.toNat < 2 ^ 63 → size = Int64.ofNat (columnCount digitCount.toNat)) ∧
      (2 ^ 63 ≤ 10 * digitCount.toNat → 10 * digitCount.toNat < 2 ^ 64 → size < 0) := by
  obtain ⟨q, hq, hthird⟩ := a.divide_three memory (10 * Word.ofCount digitCount)
  refine ⟨q + 1, ?_, ?_, ?_⟩
  · simp only [columnWord, Bind.bind, StateT.bind, a.multiply_ten, Except.bind, hq, a.increment_eq]
  · intro h
    have hm : 10 * Word.ofCount digitCount ≠ Int64.minValue := by
      rw [product_eq]
      exact Word.ne_minValue (Word.ofNat_nonneg h)
    rw [hthird hm, product_eq, third_add_one h]
  · intro h h'
    have hm : 10 * Word.ofCount digitCount ≠ Int64.minValue := by
      rw [product_eq, Ne, Word.eq_minValue_iff, Word.toInt_ofNat_of_le h h']
      omega
    rw [hthird hm, product_eq]
    exact third_add_one_lt_zero h h'

theorem make_eq_error {size : UInt64} (h : 2 ^ 60 ≤ size.toNat) :
    Columns.make size = .error .arrayTooLarge := by
  rw [Columns.make, if_neg]
  rw [le_sizeLimit_iff]
  omega

theorem count_eq_error {digitCount : UInt64} (h : 2 ^ 64 ≤ 10 * digitCount.toNat) :
    Columns.count digitCount = .error .productTooLarge := by
  rw [Columns.count, if_neg]
  rw [UInt64.size]
  omega

inductive Begun (digitCount : UInt64) : Except Violation (Spigot σ) → Prop
  | made {s : Spigot σ} : columnCount digitCount.toNat < 2 ^ 60 →
    s.columns.entries = Array.replicate (columnCount digitCount.toNat) 2 → Begun digitCount (.ok s)
  | tooLarge : 2 ^ 60 ≤ columnCount digitCount.toNat → Begun digitCount (.error .arrayTooLarge)
  | wrapped : 2 ^ 64 ≤ 10 * digitCount.toNat → Begun digitCount (.error .productTooLarge)

theorem start_begun (a : Arithmetic) (memory : σ) (digitCount : UInt64) :
    Begun digitCount (start a.machine memory digitCount) := by
  obtain ⟨size, hsize, hfits, hwraps⟩ := columnWord_ends a memory digitCount
  rw [start, hsize]
  simp only [Bind.bind, Except.bind]
  by_cases hsmall : 10 * digitCount.toNat < 2 ^ 63
  · have hcount : (UInt64.ofNat (columnCount digitCount.toNat)).toNat =
        columnCount digitCount.toNat := toNat_size (by rw [columnCount]; omega)
    have hsize' : size.toCount = UInt64.ofNat (columnCount digitCount.toNat) := by
      rw [hfits hsmall]
      rfl
    rw [hsize']
    by_cases hroom : columnCount digitCount.toNat < 2 ^ 60
    · have hexpected : Columns.count digitCount = _ := count_eq (by omega)
      simp only [make_eq hroom, hexpected, ne_eq, not_true_eq_false, if_false]
      refine .made hroom ?_
      simp [Columns.ofNats]
    · have hlarge : 2 ^ 60 ≤ columnCount digitCount.toNat := Nat.le_of_not_lt hroom
      rw [make_eq_error (by rwa [hcount])]
      exact .tooLarge hlarge
  · have hlarge : 2 ^ 60 ≤ columnCount digitCount.toNat := by
      rw [columnCount]
      omega
    by_cases hcount : 10 * digitCount.toNat < 2 ^ 64
    -- the product is negative on the machine, and so is the number of columns
    · have hnegative := Word.two_pow_le_toCount (hwraps (Nat.le_of_not_lt hsmall) hcount)
      rw [make_eq_error (by omega)]
      exact .tooLarge hlarge
    -- whatever the machine makes of it, the count without sign does not fit
    · have hover := Nat.le_of_not_lt hcount
      by_cases hroom : 2 ^ 60 ≤ size.toCount.toNat
      · rw [make_eq_error hroom]
        exact .tooLarge hlarge
      · rw [Columns.make, if_pos (le_sizeLimit_iff.2 (Nat.lt_of_not_le hroom)),
          count_eq_error hover]
        exact .wrapped hover

/-- Setting up a computation gives the true number of columns, all of them two, or a violation; a
product that wraps on the machine never goes unnoticed. -/
structure Allocates (a : Arithmetic) (memory : σ) (digitCount : UInt64) : Prop where
  columns : ∀ s, start a.machine memory digitCount = .ok s →
    s.columns.entries = Array.replicate (columnCount digitCount.toNat) 2
  made : (∃ s, start a.machine memory digitCount = .ok s) ↔
    columnCount digitCount.toNat ≤ 2 ^ 60 - 1
  violation : ∀ violation, start a.machine memory digitCount = .error violation →
    violation = .arrayTooLarge ∨ violation = .productTooLarge
  wrapped : ∃ product, a.machine.multiply 10 (Word.ofCount digitCount) memory =
      .ok (product, memory) ∧
    (product.toInt ≠ 10 * digitCount.toNat →
      ∃ violation, start a.machine memory digitCount = .error violation)

theorem allocates (a : Arithmetic) (memory : σ) (digitCount : UInt64) :
    Allocates a memory digitCount := by
  have hbegun := start_begun a memory digitCount
  generalize hstart : start a.machine memory digitCount = result at hbegun
  constructor
  · intro s hs
    rw [hstart] at hs
    subst hs
    cases hbegun with
    | made hroom hentries => exact hentries
  · rw [hstart]
    cases hbegun with
    | @made s hroom hentries => exact ⟨fun _ => by omega, fun _ => ⟨s, rfl⟩⟩
    | tooLarge hlarge =>
      constructor
      · rintro ⟨s, hs⟩
        cases hs
      · omega
    | wrapped hover =>
      constructor
      · rintro ⟨s, hs⟩
        cases hs
      · rw [columnCount]
        omega
  · intro violation hv
    rw [hstart] at hv
    subst hv
    cases hbegun with
    | tooLarge hlarge => exact .inl rfl
    | wrapped hover => exact .inr rfl
  · refine ⟨_, a.multiply_ten memory _, ?_⟩
    intro hproduct
    rw [hstart]
    cases hbegun with
    | made hroom hentries =>
      rw [columnCount] at hroom
      rw [product_eq, Int64.toInt_ofNat_of_lt (by omega)] at hproduct
      exact absurd (Nat.cast_mul _ _) hproduct
    | tooLarge hlarge => exact ⟨_, rfl⟩
    | wrapped hover => exact ⟨_, rfl⟩

end Spigot

namespace Settings

open Spigot

variable (settings : Settings)

theorem validate_eq_ok_iff :
    settings.validate = .ok () ↔
      settings.digitCount ≠ 0 ∧ 10 * settings.digitCount.toNat ≤ Int64.maxValue.toInt := by
  rw [validate]
  split_ifs with hzero hfits <;> simp [*]

theorem validate_eq_error_iff :
    (∃ refusal, settings.validate = .error refusal) ↔
      settings.digitCount = 0 ∨ Int64.maxValue.toInt < 10 * settings.digitCount.toNat := by
  rw [validate]
  split_ifs with hzero hfits <;> simp [hzero] <;> omega

theorem start_eq_error_iff {refusal : Refusal} :
    settings.start = .error refusal ↔ settings.validate = .error refusal := by
  rw [start]
  cases settings.validate with
  | error refusal' =>
    constructor
    · intro h
      cases h
      rfl
    · intro h
      cases h
      rfl
  | ok valid =>
    constructor
    · intro h
      cases h
    · intro h
      cases h

theorem start_eq (h : settings.validate = .ok ()) :
    settings.start =
      .ok ((·.withPolicy settings.policy) <$> Spigot.start settings.machine () settings.digitCount) := by
  rw [start, h]
  rfl

structure Started : Prop where
  refused : ∀ refusal, settings.start = .error refusal ↔ settings.validate = .error refusal
  refusal : (∃ refusal, settings.start = .error refusal) ↔
    settings.digitCount = 0 ∨ Int64.maxValue.toInt < 10 * settings.digitCount.toNat
  violation : ∀ violation, settings.start = .ok (.error violation) ↔
    violation = .arrayTooLarge ∧ settings.validate = .ok () ∧
      2 ^ 60 - 1 < columnCount settings.digitCount.toNat
  made : settings.validate = .ok () → columnCount settings.digitCount.toNat ≤ 2 ^ 60 - 1 →
    ∃ s, settings.start = .ok (.ok s) ∧
      s.columns.entries = Array.replicate (columnCount settings.digitCount.toNat) 2 ∧
      s.machine = settings.arithmetic.machine ∧ s.digitCount.toCount = settings.digitCount ∧
      s.policy = settings.policy

theorem started : settings.Started := by
  have hbegun := start_begun settings.arithmetic () settings.digitCount
  generalize hstart : Spigot.start settings.arithmetic.machine () settings.digitCount = result
    at hbegun
  refine ⟨fun refusal => settings.start_eq_error_iff, ?_, ?_, ?_⟩
  · simp only [settings.start_eq_error_iff]
    exact settings.validate_eq_error_iff
  · intro violation
    cases hvalid : settings.validate with
    | error refusal =>
      rw [settings.start_eq_error_iff.2 hvalid]
      simp
    | ok valid =>
      have hfits := (settings.validate_eq_ok_iff.1 hvalid).2
      rw [show Int64.maxValue.toInt = 2 ^ 63 - 1 from rfl] at hfits
      rw [settings.start_eq hvalid, machine, hstart]
      cases hbegun with
      | made hroom hentries =>
        constructor
        · intro h
          cases h
        · omega
      | tooLarge hlarge =>
        constructor
        · intro h
          cases h
          exact ⟨rfl, rfl, by omega⟩
        · rintro ⟨rfl, -, -⟩
          rfl
      | wrapped hover => omega
  · intro hvalid hroom
    rw [settings.start_eq hvalid, machine, hstart]
    cases hbegun with
    | @made s _ hentries =>
      obtain ⟨memory, columns, rfl⟩ := start_eq_ok hstart
      exact ⟨_, rfl, hentries, rfl, rfl, rfl⟩
    | tooLarge hlarge => omega
    | wrapped hover =>
      rw [columnCount] at hroom
      omega

end Settings

theorem Spigot.start_allocates :
    (∀ (σ : Type) (a : Arithmetic) (memory : σ) (digitCount : UInt64),
      Spigot.Allocates a memory digitCount) ∧
    ∀ settings : Settings, settings.Started :=
  ⟨fun _ => Spigot.allocates, Settings.started⟩

/-- Ten times `2 ^ 63` is zero on the machine, which would be one column; the settings are the last
with room for their columns and the first without. -/
theorem Spigot.start_allocates_edges :
    (∃ product, (Arithmetic.counting.machine : Machine Unit).multiply 10
        (Word.ofCount 9223372036854775808) () = .ok (product, ()) ∧ product = 0 ∧
      ∃ violation,
        start (Arithmetic.counting.machine : Machine Unit) () 9223372036854775808 =
          .error violation) ∧
    (∃ s, (Settings.historical 345876451382054092).start = .ok (.ok s) ∧
      s.columns.entries = Array.replicate 1152921504606846974 2 ∧ s.policy = .keepPredigit) ∧
    (Settings.counting 345876451382054093).start = .ok (.error .arrayTooLarge) := by
  refine ⟨?_, ?_, ?_⟩
  · obtain ⟨product, hproduct, hcaught⟩ :=
      (start_allocates.1 Unit .counting () 9223372036854775808).wrapped
    have hzero : product = 0 := by
      rw [Arithmetic.multiply_ten] at hproduct
      cases hproduct
      decide
    refine ⟨product, hproduct, hzero, hcaught ?_⟩
    rw [hzero]
    decide
  · obtain ⟨s, hs, hentries, -, -, hpolicy⟩ :=
      (start_allocates.2 (.historical 345876451382054092)).made (by decide) (by decide)
    exact ⟨s, hs, hentries, hpolicy⟩
  · exact ((start_allocates.2 (.counting 345876451382054093)).violation _).2
      ⟨rfl, by decide, by decide⟩

end PiDigits
