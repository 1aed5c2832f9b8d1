import PiDigits.Columns
import PiDigits.Proofs.MachineAgreement
import PiDigits.Proofs.RadixPass

namespace PiDigits.Columns

open Work Radix

variable {σ : Type}

def ofNats (entries : List ℕ) : Columns := ⟨(entries.map Int64.ofNat).toArray⟩

@[simp]
theorem size_ofNats (entries : List ℕ) : (ofNats entries).size = entries.length := by
  simp [ofNats, size]

theorem toCount_ofNat {k : ℕ} (hk : k < 2 ^ 63) : (Word.toCount (Int64.ofNat k)).toNat = k := by
  rw [Word.toCount, Int64.toUInt64_ofNat', UInt64.toNat_ofNat']
  exact Nat.mod_eq_of_lt (by omega)

theorem get_ofNats {front : List ℕ} (entry : ℕ) (back : List ℕ) (hk : front.length < 2 ^ 63) :
    (ofNats (front ++ entry :: back)).get (Int64.ofNat front.length) =
      .ok (Int64.ofNat entry) := by
  rw [get, toCount_ofNat hk]
  simp [ofNats]

theorem set_ofNats {front : List ℕ} (entry new : ℕ) (back : List ℕ)
    (hk : front.length < 2 ^ 63) :
    (ofNats (front ++ entry :: back)).set (Int64.ofNat front.length) (Int64.ofNat new) =
      .ok (ofNats (front ++ new :: back)) := by
  rw [set]
  simp [toCount_ofNat hk, ofNats]

theorem sweepFrom_succ (m : Machine σ) (rounds : ℕ) (i carry : Word) (c : Columns) :
    sweepFrom m (rounds + 1) i carry c = (do
      if ← m.isPositive i then
        let next ← round m i carry c
        sweepFrom m rounds next.1 next.2.1 next.2.2
      else
        return (carry, c)) := rfl

structure Turn where
  index : Word
  entry : Word
  tenfold : Word
  carried : Word
  x : Word
  doubled : Word
  divisor : Word
  remainder : Word
  handed : Word

/-- The machine works out these words at position `i`, and each is the number that is meant. -/
structure Turn.Exactly (turn : Turn) (m : Machine σ) (i carry : Word) (c c' : Columns) :
    Prop where
  index : Gives (m.decrement i) turn.index ∧ turn.index.toInt = i.toInt - 1
  entry : c.get turn.index = .ok turn.entry ∧ 0 ≤ turn.entry.toInt
  tenfold : Gives (m.multiply 10 turn.entry) turn.tenfold ∧
    turn.tenfold.toInt = 10 * turn.entry.toInt
  carried : Gives (m.multiply carry i) turn.carried ∧ turn.carried.toInt = carry.toInt * i.toInt
  x : Gives (m.add turn.tenfold turn.carried) turn.x ∧
    turn.x.toInt = turn.tenfold.toInt + turn.carried.toInt
  doubled : Gives (m.multiply 2 i) turn.doubled ∧ turn.doubled.toInt = 2 * i.toInt
  divisor : Gives (m.decrement turn.doubled) turn.divisor ∧
    turn.divisor.toInt = turn.doubled.toInt - 1 ∧ 0 < turn.divisor.toInt
  remainder : Gives (m.modulus turn.x turn.divisor) turn.remainder ∧
    turn.remainder.toInt = turn.x.toInt % turn.divisor.toInt
  columns : c.set turn.index turn.remainder = .ok c'
  handed : Gives (m.divide turn.x turn.divisor) turn.handed ∧
    turn.handed.toInt = turn.x.toInt / turn.divisor.toInt

theorem Turn.Exactly.round_gives {turn : Turn} {m : Machine σ} {i carry : Word} {c c' : Columns}
    (h : turn.Exactly m i carry c c') :
    Gives (round m i carry c) (turn.index, turn.handed, c') := by
  apply h.index.1.bind
  apply (Gives.lift h.entry.1).bind
  apply h.tenfold.1.bind
  apply h.carried.1.bind
  apply h.x.1.bind
  apply h.doubled.1.bind
  apply h.divisor.1.bind
  apply h.remainder.1.bind
  apply (Gives.lift h.columns).bind
  apply h.handed.1.bind
  exact Gives.pure _

def Turn.ofNats (k entry carry : ℕ) : Turn :=
  let x := 10 * entry + carry * (k + 1)
  let divisor := 2 * (k + 1) - 1
  { index := .ofNat k
    entry := .ofNat entry
    tenfold := .ofNat (10 * entry)
    carried := .ofNat (carry * (k + 1))
    x := .ofNat x
    doubled := .ofNat (2 * (k + 1))
    divisor := .ofNat divisor
    remainder := .ofNat (x % divisor)
    handed := .ofNat (x / divisor) }

theorem Turn.ofNats_exactly {m : Machine σ} {limit : ℕ} (h : m.Serves limit) {front : List ℕ}
    (entry carry : ℕ) (back : List ℕ) (hk : 2 * (front.length + 1) < limit)
    (hx : 10 * entry + carry * (front.length + 1) < limit) :
    (Turn.ofNats front.length entry carry).Exactly m (Int64.ofNat (front.length + 1))
      (Int64.ofNat carry) (Columns.ofNats (front ++ entry :: back))
      (Columns.ofNats (front ++
        (10 * entry + carry * (front.length + 1)) % (2 * (front.length + 1) - 1) :: back)) := by
  have hlarge := h.large
  have hsmall := h.small
  have hcarry : carry ≤ carry * (front.length + 1) := Nat.le_mul_of_pos_right _ (Nat.succ_pos _)
  have hd : 2 * (front.length + 1) - 1 + 1 = 2 * (front.length + 1) := by omega
  have hdecrement := h.decrement (a := 2 * (front.length + 1) - 1) (by omega)
  rw [hd] at hdecrement
  have hmod : (10 * entry + carry * (front.length + 1)) % (2 * (front.length + 1) - 1) < 2 ^ 63 :=
    (Nat.mod_le _ _).trans_lt (by omega)
  have hdiv : (10 * entry + carry * (front.length + 1)) / (2 * (front.length + 1) - 1) < 2 ^ 63 :=
    (Nat.div_le_self _ _).trans_lt (by omega)
  have htoInt {a : ℕ} (ha : a < 2 ^ 63) : (Int64.ofNat a).toInt = a := Int64.toInt_ofNat_of_lt ha
  simp only [Turn.ofNats]
  constructor
  · refine ⟨h.decrement (by omega), ?_⟩
    rw [htoInt (by omega), htoInt (by omega)]
    omega
  · refine ⟨get_ofNats _ _ (by omega), ?_⟩
    rw [htoInt (by omega)]
    omega
  · refine ⟨h.multiply (a := 10) (by omega) (by omega), ?_⟩
    rw [htoInt (by omega), htoInt (by omega)]
    omega
  · refine ⟨h.multiply (by omega) (by omega), ?_⟩
    rw [htoInt (by omega), htoInt (by omega), htoInt (by omega)]
    push_cast
    rfl
  · refine ⟨h.add (by omega) (by omega), ?_⟩
    rw [htoInt (by omega), htoInt (by omega), htoInt (by omega)]
    push_cast
    rfl
  · refine ⟨h.multiply (a := 2) (by omega) (by omega), ?_⟩
    rw [htoInt (by omega), htoInt (by omega)]
    push_cast
    rfl
  · refine ⟨hdecrement, ?_⟩
    rw [htoInt (by omega), htoInt (by omega)]
    omega
  · refine ⟨h.modulus hx (by omega) (by omega), ?_⟩
    rw [htoInt hmod, htoInt (by omega), htoInt (by omega)]
    push_cast
    rfl
  · exact set_ofNats _ _ _ (by omega)
  · refine ⟨h.divide hx (by omega) (by omega), ?_⟩
    rw [htoInt hdiv, htoInt (by omega), htoInt (by omega)]
    push_cast
    rfl

theorem sweepFrom_gives {m : Machine σ} {limit : ℕ} (h : m.Serves limit) (hfirst : 110 ≤ limit)
    {rounds : ℕ} (front back : List ℕ) (hs : Shaped (front ++ back))
    (hl : 39 * (front ++ back).length ≤ limit) (hr : front.length ≤ rounds) :
    Gives (sweepFrom m rounds (Int64.ofNat front.length)
        (Int64.ofNat (pass (front.length + 1) back).1)
        (ofNats (front ++ (pass (front.length + 1) back).2)))
      (Int64.ofNat (pass 1 (front ++ back)).1, ofNats (pass 1 (front ++ back)).2) := by
  -- `back` has been passed over; each round takes the last column off `front`, as the pass does
  induction front using List.reverseRecOn generalizing rounds back with
  | nil =>
    cases rounds with
    | zero =>
      rw [sweepFrom]
      exact (h.isPositive (a := 0) (by omega)).bind (.pure _)
    | succ rounds =>
      rw [sweepFrom_succ]
      exact (h.isPositive (a := 0) (by omega)).bind (.pure _)
  | append_singleton front entry ih =>
    simp only [List.append_assoc, List.singleton_append, List.length_append, List.length_cons,
      List.length_nil, Nat.zero_add] at hs hl hr ⊢
    obtain ⟨rounds, rfl⟩ := Nat.exists_eq_add_of_le' (Nat.le_of_add_left_le hr)
    have hx := hs.intake_lt (by omega) hfirst
    have hround := (Turn.ofNats_exactly h entry (pass (front.length + 1 + 1) back).1
      (pass (front.length + 1 + 1) back).2 (by omega) hx).round_gives
    rw [sweepFrom_succ]
    apply (h.isPositive (by omega)).bind
    rw [decide_eq_true (Nat.succ_pos _), if_pos rfl]
    apply hround.bind
    have hnext := @ih rounds (entry :: back) hs (by simpa using hl) (by omega)
    rwa [pass_cons] at hnext

theorem sweep_gives {m : Machine σ} {limit : ℕ} (h : m.Serves limit) (hfirst : 110 ≤ limit)
    {entries : List ℕ} (hs : Shaped entries) (hl : 39 * entries.length ≤ limit) :
    Gives ((ofNats entries).sweep m)
      (Int64.ofNat (pass 1 entries).1, ofNats (pass 1 entries).2) := by
  have hsmall := h.small
  have hrounds : entries.length ≤ Machine.roundLimit := by
    rw [Machine.roundLimit]
    omega
  have hpass := sweepFrom_gives h hfirst entries [] (by simpa using hs) (by simpa using hl) hrounds
  have hsize : Word.ofCount (ofNats entries).size.toUInt64 = Int64.ofNat entries.length := by
    rw [size_ofNats]
    rfl
  rw [Columns.sweep, hsize]
  simpa [Radix.pass] using hpass

theorem extract_gives {m : Machine σ} {limit : ℕ} (h : m.Serves limit) {carry : ℕ}
    (hc : carry < limit) (first : ℕ) (rest : List ℕ) :
    Gives ((ofNats (first :: rest)).extract m (Int64.ofNat carry))
      (Int64.ofNat (carry / 10), ofNats (carry % 10 :: rest)) := by
  have hlarge := h.large
  apply (h.modulus (b := 10) hc (by omega) (by omega)).bind
  apply (Gives.lift (@set_ofNats [] first (carry % 10) rest (by simp))).bind
  apply (h.divide (b := 10) hc (by omega) (by omega)).bind
  exact Gives.pure _

theorem firstUnreducedFrom?_eq_none {position : ℕ} {entries : List ℕ}
    (h : Reduced position entries) (hp : 2 * (position + entries.length) ≤ 2 ^ 63) :
    firstUnreducedFrom? position (entries.map Int64.ofNat) = none := by
  induction entries generalizing position with
  | nil => rfl
  | cons entry rest ih =>
    have he := h.1
    rw [List.length_cons] at hp
    have hr : reducedAt position (Int64.ofNat entry) = true := by
      rw [reducedAt, Int64.toInt_ofNat_of_lt (by omega), decide_eq_true_eq]
      omega
    rw [List.map_cons, firstUnreducedFrom?, if_pos hr]
    exact ih h.2 (by omega)

theorem firstUnreduced?_ofNats {entries : List ℕ} (h : Reduced 1 entries)
    (hl : 2 * (1 + entries.length) ≤ 2 ^ 63) : (ofNats entries).firstUnreduced? = none :=
  firstUnreducedFrom?_eq_none h hl

end PiDigits.Columns
