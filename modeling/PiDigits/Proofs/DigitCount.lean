import PiDigits.CommandLine
import Mathlib.Tactic.Common

namespace PiDigits.CommandLine

def Denotes (s : String) (n : UInt64) : Prop :=
  ∃ digits, digits ≠ [] ∧ (s.toList = digits ∨ s.toList = '+' :: digits) ∧
    (∀ c ∈ digits, c.isDigit = true) ∧ Nat.ofDigitChars 10 digits 0 = n.toNat

def Requests : List String → UInt64 → Prop
  | [], n => n = 10
  | argument :: _, n => Denotes argument n

variable {n : UInt64}

theorem le_ofDigitChars (cs : List Char) (k : Nat) : k ≤ Nat.ofDigitChars 10 cs k := by
  rw [Nat.ofDigitChars_eq_ofDigitChars_zero]
  exact Nat.le_add_right_of_le (Nat.le_mul_of_pos_left k (Nat.pow_pos (by decide)))

theorem readDigits_eq_ok_iff {k : Nat} (hk : k < UInt64.size) (cs : List Char) :
    readDigits k cs = .ok n ↔
      (∀ c ∈ cs, c.isDigit = true) ∧ Nat.ofDigitChars 10 cs k = n.toNat := by
  induction cs generalizing k with
  | nil =>
    rw [readDigits, Except.ok.injEq, Nat.ofDigitChars_nil, ← UInt64.toNat_inj, Nat.toUInt64,
      UInt64.toNat_ofNat_of_lt' hk]
    simp
  | cons c cs ih =>
    rw [readDigits, List.forall_mem_cons, Nat.ofDigitChars_cons]
    by_cases hc : c.isDigit = true
    · by_cases hfits : 10 * k + (c.toNat - '0'.toNat) < UInt64.size
      · simp only [hc, Bool.not_true, Bool.false_eq_true, if_false, if_pos hfits, ih hfits,
          true_and]
      -- what follows only makes the number larger
      · have hle := le_ofDigitChars cs (10 * k + (c.toNat - '0'.toNat))
        have hlt := n.toNat_lt_size
        simp only [hc, Bool.not_true, Bool.false_eq_true, if_false, if_neg hfits, reduceCtorEq,
          false_iff]
        omega
    · simp [hc]

theorem readCount_of_toList {s : String} {digits : List Char} (hne : digits ≠ [])
    (hdigits : ∀ c ∈ digits, c.isDigit = true)
    (h : s.toList = digits ∨ s.toList = '+' :: digits) : readCount s = readDigits 0 digits := by
  obtain ⟨c, rest, rfl⟩ := List.exists_cons_of_ne_nil hne
  have hc : c ≠ '+' := by
    rintro rfl
    exact absurd (hdigits '+' List.mem_cons_self) (by decide)
  rw [readCount]
  rcases h with h | h <;> rw [h]
  · split <;> simp_all
  · rfl

theorem readCount_eq_ok_iff {s : String} : readCount s = .ok n ↔ Denotes s n := by
  have hsize : 0 < UInt64.size := by decide
  constructor
  · intro h
    rw [readCount] at h
    split at h
    case h_1 => cases h
    case h_2 => cases h
    case h_3 digits hne hs =>
      exact ⟨digits, hne, .inr hs,
        (readDigits_eq_ok_iff hsize digits).mp h⟩
    case h_4 hempty _ _ =>
      exact ⟨s.toList, hempty, .inl rfl,
        (readDigits_eq_ok_iff hsize s.toList).mp h⟩
  · rintro ⟨digits, hne, hs, hdigits⟩
    rw [readCount_of_toList hne hdigits.1 hs, readDigits_eq_ok_iff hsize]
    exact hdigits

theorem digitCount_eq_ok_iff {arguments : List String} :
    digitCount arguments = .ok n ↔ Requests arguments n := by
  cases arguments with
  | nil =>
    rw [digitCount, Requests, Except.ok.injEq]
    exact eq_comm
  | cons argument rest =>
    rw [digitCount, Requests, ← readCount_eq_ok_iff]
    split <;> simp_all

end PiDigits.CommandLine
