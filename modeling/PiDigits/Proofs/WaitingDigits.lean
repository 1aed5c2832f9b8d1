import Mathlib.Data.Nat.Digits.Lemmas
import PiDigits.Held
import PiDigits.Proofs.MachineAgreement

namespace PiDigits

open Work

/-- The number that decimal places spell, the highest first. A place may hold more than nine. -/
def spelled (places : List ℕ) : ℕ := Nat.ofDigits 10 places.reverse

theorem spelled_append (places more : List ℕ) :
    spelled (places ++ more) = spelled places * 10 ^ more.length + spelled more := by
  rw [spelled, spelled, spelled, List.reverse_append, Nat.ofDigits_append, List.length_reverse]
  ring

@[simp]
theorem spelled_nil : spelled [] = 0 := rfl

@[simp]
theorem spelled_singleton (place : ℕ) : spelled [place] = place := Nat.ofDigits_singleton

theorem spelled_snoc (places : List ℕ) (place : ℕ) :
    spelled (places ++ [place]) = 10 * spelled places + place := by
  rw [spelled_append, spelled_singleton, List.length_singleton]
  ring

namespace Digit

def ofNat (a : ℕ) : Digit := ⟨UInt8.ofNat a⟩

def number (digits : List Digit) : ℕ := spelled (digits.map fun d => d.value.toNat)

@[simp]
theorem number_nil : number [] = 0 := rfl

theorem number_append (digits more : List Digit) :
    number (digits ++ more) = number digits * 10 ^ more.length + number more := by
  rw [number, List.map_append, spelled_append, List.length_map]
  rfl

theorem number_snoc (digits : List Digit) (d : Digit) :
    number (digits ++ [d]) = 10 * number digits + d.value.toNat := by
  rw [number, List.map_append, List.map_singleton, spelled_snoc]
  rfl

theorem value_ofNat {a : ℕ} (ha : a ≤ 9) : (ofNat a).value.toNat = a := by
  rw [ofNat, UInt8.toNat_ofNat']
  omega

theorem number_singleton {a : ℕ} (ha : a ≤ 9) : number [ofNat a] = a := by
  rw [number, List.map_singleton, spelled_singleton, value_ofNat ha]

theorem number_zeros (count : ℕ) : number (List.replicate count zero) = 0 := by
  induction count with
  | zero => rfl
  | succ count ih =>
    rw [List.replicate_succ', number_snoc, ih]
    rfl

theorem number_nines_succ (count : ℕ) : number (List.replicate count nine) + 1 = 10 ^ count := by
  induction count with
  | zero => rfl
  | succ count ih =>
    rw [List.replicate_succ', number_snoc, pow_succ, ← ih, show nine.value.toNat = 9 from rfl]
    ring

theorem isDecimal_ofNat {a : ℕ} (ha : a ≤ 9) : (ofNat a).IsDecimal := by
  rw [IsDecimal, UInt8.le_iff_toNat_le, value_ofNat ha]
  exact ha

theorem isDecimal_of_mem_replicate {d e : Digit} {count : ℕ} (hd : d.IsDecimal)
    (he : e ∈ List.replicate count d) : e.IsDecimal := by
  rwa [List.eq_of_mem_replicate he]

theorem number_lt {digits : List Digit} (h : ∀ d ∈ digits, d.IsDecimal) :
    number digits < 10 ^ digits.length := by
  have hlt := Nat.ofDigits_lt_base_pow_length (b := 10)
    (l := (digits.map fun d => d.value.toNat).reverse) (by norm_num) (by
      intro place hplace
      obtain ⟨d, hd, rfl⟩ := List.mem_map.1 (List.mem_reverse.1 hplace)
      have := UInt8.le_iff_toNat_le.1 (h d hd)
      exact this.trans_lt (by decide))
  simpa [number, spelled] using hlt

theorem ofWord_ofNat {a : ℕ} (ha : a ≤ 9) : ofWord (Int64.ofNat a) = .ok (ofNat a) := by
  interval_cases a <;> rfl

end Digit

structure Waiting where
  predigit : ℕ
  nines : ℕ
  holding : Bool

namespace Waiting

variable {σ : Type}

def empty : Waiting := ⟨0, 0, false⟩

def toHeld (w : Waiting) : Held := ⟨Int64.ofNat w.predigit, Int64.ofNat w.nines, w.holding⟩

def front (w : Waiting) : List Digit := if w.holding then [.ofNat w.predigit] else []

def kind (carry : ℕ) : CarryKind :=
  if carry = 9 then .nine else if carry = 10 then .ten else .settled

def released (w : Waiting) (carry : ℕ) : List Digit :=
  match kind carry with
  | .nine => []
  | .ten => .ofNat (w.predigit + 1) :: List.replicate w.nines .zero
  | .settled => w.front ++ List.replicate w.nines .nine

def after (policy : Policy) (w : Waiting) (carry : ℕ) : Waiting :=
  match kind carry with
  | .nine => { w with nines := w.nines + 1 }
  | .ten => ⟨if policy = .resetBoth then 0 else w.predigit, 0, true⟩
  | .settled => ⟨carry, 0, true⟩

theorem kind_nine : kind 9 = .nine := rfl

theorem kind_eq_nine_iff {carry : ℕ} : kind carry = .nine ↔ carry = 9 := by
  rw [kind]
  split
  · simpa
  · split <;> simpa

theorem kind_ten : kind 10 = .ten := rfl

theorem kind_eq_ten_iff {carry : ℕ} : kind carry = .ten ↔ carry = 10 := by
  rw [kind]
  split
  · simp only [reduceCtorEq, false_iff]
    omega
  · split <;> simpa

theorem kind_settled {carry : ℕ} (h : carry ≤ 8) : kind carry = .settled := by
  rw [kind, if_neg (by omega), if_neg (by omega)]

theorem carry_cases {carry : ℕ} (h : carry ≤ 10) : carry = 9 ∨ carry = 10 ∨ carry ≤ 8 := by
  omega

theorem front_toHeld {w : Waiting} (hp : w.predigit ≤ 8) : w.toHeld.front = .ok w.front := by
  rw [Held.front, front]
  cases hh : w.holding with
  | false => simp only [toHeld, hh]; rfl
  | true =>
    simp only [toHeld, hh, Digit.ofWord_ofNat (show w.predigit ≤ 9 by omega)]
    rfl

theorem flush_toHeld {w : Waiting} (hp : w.predigit ≤ 8) (out : List Digit) :
    w.toHeld.flush out = .ok (out ++ w.front) := by
  rw [Held.flush, front_toHeld hp]
  rfl

theorem predigit_after_le {w : Waiting} {carry : ℕ} (policy : Policy) (hp : w.predigit ≤ 8)
    (hc : carry ≤ 10) : (w.after policy carry).predigit ≤ 8 := by
  rcases carry_cases hc with rfl | rfl | hc
  · exact hp
  · simp only [after, kind_ten]
    split <;> omega
  · simpa only [after, kind_settled hc] using hc

theorem isDecimal_front {w : Waiting} (hp : w.predigit ≤ 8) {d : Digit} (hd : d ∈ w.front) :
    d.IsDecimal := by
  rw [front] at hd
  split at hd
  · rw [List.mem_singleton.1 hd]
    exact Digit.isDecimal_ofNat (by omega)
  · cases hd

theorem isDecimal_released {w : Waiting} {carry : ℕ} (hp : w.predigit ≤ 8) {d : Digit}
    (hd : d ∈ w.released carry) : d.IsDecimal := by
  rw [released] at hd
  cases hk : kind carry with
  | nine => simp [hk] at hd
  | ten =>
    rw [hk] at hd
    rcases List.mem_cons.1 hd with rfl | hd
    · exact Digit.isDecimal_ofNat (by omega)
    · exact Digit.isDecimal_of_mem_replicate (by decide) hd
  | settled =>
    rw [hk] at hd
    rcases List.mem_append.1 hd with hd | hd
    · exact isDecimal_front hp hd
    · exact Digit.isDecimal_of_mem_replicate (by decide) hd

theorem nines_after_le (policy : Policy) (w : Waiting) (carry : ℕ) :
    (w.after policy carry).nines ≤ w.nines + 1 := by
  rw [after]
  split <;> simp

def worth (w : Waiting) : ℕ := (w.predigit + 1) * 10 ^ w.nines

def Placed (w : Waiting) (released : List Digit) : Prop :=
  w.holding = false → w.predigit = 0 ∧ released = []

theorem Placed.after {w : Waiting} {out : List Digit} (hw : w.Placed out) (policy : Policy)
    {carry : ℕ} (hc : carry ≤ 10) :
    (w.after policy carry).Placed (out ++ w.released carry) := by
  intro hh
  rcases carry_cases hc with rfl | rfl | hc
  · obtain ⟨hp, hout⟩ := hw hh
    exact ⟨hp, by simp [released, kind_nine, hout]⟩
  · simp [Waiting.after, kind_ten] at hh
  · simp [Waiting.after, kind_settled hc] at hh

/-- When the predigit is reset after a carry of ten, the digits released and the digits that wait
spell ten times what they spelled before and the carry. -/
theorem spelled_after {w : Waiting} {carry : ℕ} {out : List Digit} (hc : carry ≤ 10)
    (hp : w.predigit ≤ 8) (hw : w.Placed out) :
    Digit.number (out ++ w.released carry) * 10 ^ ((w.after .resetBoth carry).nines + 1) +
        (w.after .resetBoth carry).worth + 9 =
      10 * (Digit.number out * 10 ^ (w.nines + 1) + w.worth) + carry := by
  have hn := Digit.number_nines_succ w.nines
  rcases carry_cases hc with rfl | rfl | hc
  · simp only [released, after, kind_nine, worth, List.append_nil, pow_succ]
    ring
  · simp only [released, after, kind_ten, worth, if_true, pow_zero, zero_add, pow_one, mul_one]
    rw [Digit.number_append, ← List.singleton_append, Digit.number_append,
      Digit.number_singleton (by omega), Digit.number_zeros]
    simp only [List.length_append, List.length_singleton, List.length_replicate]
    ring
  · simp only [released, after, kind_settled hc, worth, pow_zero, zero_add, pow_one, mul_one]
    cases hh : w.holding with
    | true =>
      rw [front, if_pos hh, Digit.number_append, Digit.number_append,
        Digit.number_singleton (by omega)]
      simp only [List.length_append, List.length_singleton, List.length_replicate, pow_add,
        pow_succ, ← hn]
      ring
    | false =>
      obtain ⟨h0, rfl⟩ := hw hh
      rw [front, if_neg (by simp [hh]), h0, List.nil_append, List.nil_append, Digit.number_nil,
        ← hn]
      ring

theorem length_released {w : Waiting} (hh : w.holding) (policy : Policy) (carry : ℕ) :
    (w.after policy carry).holding = true ∧
      (w.released carry).length + (w.after policy carry).nines = w.nines + 1 := by
  rw [after, released, front, if_pos hh]
  cases kind carry with
  | nine => exact ⟨hh, by simp⟩
  | ten => simp
  | settled => simp

theorem countdown_gives {m : Machine σ} {limit : ℕ} (h : m.Serves limit) {count rounds : ℕ}
    (hc : count < limit) (hr : count ≤ rounds) (done : ℕ) :
    Gives (Held.countdown m rounds (Int64.ofNat count) done) (done + count) := by
  induction count generalizing rounds done with
  | zero =>
    rw [Held.countdown.eq_def]
    exact (h.isPositive hc).bind (.pure _)
  | succ count ih =>
    obtain ⟨rounds, rfl⟩ := Nat.exists_eq_add_of_le' (Nat.one_le_of_lt hr)
    rw [Held.countdown]
    apply (h.isPositive hc).bind
    rw [decide_eq_true (Nat.succ_pos _), if_pos rfl]
    apply (h.decrement hc).bind
    rw [show done + (count + 1) = done + 1 + count by omega]
    exact ih (by omega) (by omega) (done + 1)

theorem run_gives {m : Machine σ} {limit : ℕ} (h : m.Serves limit) {count : ℕ}
    (hc : count < limit) (digit : Digit) :
    Gives (Held.run m digit (Int64.ofNat count)) (List.replicate count digit) := by
  have hsmall := h.small
  have hr : count ≤ Machine.roundLimit := by
    rw [Machine.roundLimit]
    omega
  have hd := countdown_gives h hc hr 0
  rw [Nat.zero_add] at hd
  exact hd.bind (.pure _)

theorem classify_gives {m : Machine σ} {limit : ℕ} (h : m.Serves limit) (policy : Policy)
    {w : Waiting} {carry : ℕ} (hc : carry ≤ 10) (hp : w.predigit ≤ 8) (hn : w.nines < limit)
    (out : List Digit) :
    Gives (Held.classify m policy (Int64.ofNat carry) w.toHeld out)
      (.ok (kind carry), (w.after policy carry).toHeld, out ++ w.released carry) := by
  have hlarge := h.large
  rw [Held.classify, ← bind_assoc]
  apply (h.holds_equals (b := 9) (by omega) (by omega)).bind
  rcases carry_cases hc with rfl | rfl | hc
  · rw [decide_eq_true rfl, if_pos rfl]
    apply (h.increment hn).bind
    simp only [kind_nine, after, released, List.append_nil]
    exact .pure _
  · rw [decide_eq_false (by omega), if_neg Bool.false_ne_true, ← bind_assoc]
    apply (h.holds_equals (b := 10) (by omega) (by omega)).bind
    rw [decide_eq_true rfl, if_pos rfl]
    apply (h.increment (show w.predigit < limit by omega)).bind
    rw [Digit.ofWord_ofNat (by omega)]
    apply (run_gives h hn .zero).bind
    simp only [kind_ten, after, released]
    cases policy <;> exact .pure _
  · rw [decide_eq_false (by omega), if_neg Bool.false_ne_true, ← bind_assoc]
    apply (h.holds_equals (b := 10) (by omega) (by omega)).bind
    rw [decide_eq_false (by omega), if_neg Bool.false_ne_true]
    rw [Digit.ofWord_ofNat (by omega), front_toHeld hp]
    dsimp only
    rw [← bind_assoc]
    apply (h.holds_greaterThan (b := 0) hn (by omega)).bind
    simp only [kind_settled hc, after, released]
    by_cases hz : 0 < w.nines
    · rw [decide_eq_true hz, if_pos rfl, ← List.append_assoc]
      apply (run_gives h hn .nine).bind
      exact .pure _
    · obtain hz' : w.nines = 0 := by omega
      rw [decide_eq_false hz, if_neg Bool.false_ne_true, hz', List.replicate_zero, List.append_nil,
        toHeld, hz']
      exact .pure _

end Waiting

end PiDigits
