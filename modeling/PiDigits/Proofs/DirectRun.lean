import PiDigits.Direct
import PiDigits.Proofs.SpigotRun

namespace PiDigits

namespace Digit

theorem row_append (digits more : List Digit) : row (digits ++ more) = row digits ++ row more := by
  rw [row, row, row, List.map_append, String.ofList_append]

theorem row_push (digits : List Digit) (d : Digit) :
    (row digits).push d.char = row (digits ++ [d]) := by
  apply String.toList_injective
  rw [row_append, String.toList_push, String.toList_append]
  simp [row]

theorem row_replicate (count : ℕ) (d : Digit) :
    row (List.replicate count d) = String.ofList (List.replicate count d.char) := by
  rw [row, List.map_replicate]

theorem toChar_eq {d : Digit} (h : d.IsDecimal) : d.toChar = .ok d.char := by
  have hd : d.value.toNat ≤ 9 := UInt8.le_iff_toNat_le.1 h
  rw [toChar, if_pos]
  rw [UInt8.size, show '0'.toNat = 48 from rfl]
  omega

theorem mapM_toChar {digits : List Digit} (h : ∀ d ∈ digits, d.IsDecimal) :
    digits.mapM toChar = .ok (row digits).toList := by
  rw [row, String.toList_ofList]
  induction digits with
  | nil => rfl
  | cons d digits ih =>
    rw [List.mapM_cons, toChar_eq (h d (by simp)), ih fun e he => h e (by simp [he])]
    rfl

end Digit

namespace Direct

open Radix

variable {n : ℕ} {t : Exact}

theorem fit_natCast {a : ℕ} (h : a < 2 ^ 63) (otherwise : Violation) :
    fit (a : ℤ) otherwise = .ok (a : ℤ) := by
  rw [fit, if_pos]
  rw [show Int64.minValue.toInt = -2 ^ 63 from rfl, show Int64.maxValue.toInt = 2 ^ 63 - 1 from rfl]
  omega

def ofPass (p : ℕ × List ℕ) : ℤ × List ℤ := (p.1, p.2.map Nat.cast)

theorem sweep_cons {position entry : ℕ} {rest : List ℕ} (hp : 1 ≤ position)
    (hx : intake position entry rest < 2 ^ 63)
    (hrest : sweep (position + 1) (rest.map Nat.cast) = .ok (ofPass (pass (position + 1) rest))) :
    sweep position ((entry :: rest).map Nat.cast) =
      .ok (ofPass (pass position (entry :: rest))) := by
  have hd : (2 * position - 1 : ℤ) = (2 * position - 1 : ℕ) := by omega
  rw [pass_cons, List.map_cons, sweep, hrest]
  rw [intake] at hx ⊢
  have hten : fit (10 * (entry : ℤ)) .productTooLarge = .ok ((10 * entry : ℕ) : ℤ) := by
    rw [← fit_natCast (by omega)]
    push_cast
    rfl
  have hcarried : fit ((pass (position + 1) rest).1 * (position : ℤ)) .productTooLarge =
      .ok (((pass (position + 1) rest).1 * position : ℕ) : ℤ) := by
    rw [← fit_natCast (by omega)]
    push_cast
    rfl
  simp only [ofPass, Bind.bind, Except.bind, hten, hcarried, ← Nat.cast_add, fit_natCast hx, hd,
    ← Int.ofNat_tdiv, ← Int.ofNat_tmod, List.map_cons]
  rfl

theorem sweep_back (front back : List ℕ) (h : Shaped (front ++ back))
    (hfit : 39 * (front ++ back).length ≤ 2 ^ 63) :
    sweep (front.length + 1) (back.map Nat.cast) = .ok (ofPass (pass (front.length + 1) back)) := by
  induction back generalizing front with
  | nil => rfl
  | cons entry back ih =>
    have hrest := ih (front ++ [entry]) (by simpa using h) (by simpa using hfit)
    rw [List.length_append, List.length_singleton] at hrest
    have hlength : (front ++ entry :: back).length = front.length + 1 + back.length := by
      simp only [List.length_append, List.length_cons]
      omega
    have hx : intake (front.length + 1) entry back < 2 ^ 63 :=
      h.intake_lt (by omega) (by norm_num)
    exact sweep_cons (by omega) hx hrest

def ofExact (t : Exact) : State where
  columns := t.columns.map Nat.cast
  predigit := t.waiting.predigit
  nines := t.waiting.nines
  holding := t.waiting.holding
  written := Digit.row t.settled

theorem write_natCast {a : ℕ} (ha : a ≤ 9) (digits : List Digit) :
    write (a : ℤ) (Digit.row digits) = .ok (Digit.row (digits ++ [.ofNat a])) := by
  rw [write, if_pos (by omega), Int.toNat_natCast, ← Digit.row_push, Digit.char,
    Digit.value_ofNat ha]

theorem writeFront_ofExact (hp : t.waiting.predigit ≤ 8) (columns : List ℤ) :
    State.writeFront { ofExact t with columns } =
      .ok (Digit.row (t.settled ++ t.waiting.front)) := by
  rw [State.writeFront, Waiting.front]
  by_cases hh : t.waiting.holding = true
  · rw [if_pos hh]
    exact (if_pos hh).trans (write_natCast (by omega) _)
  · rw [if_neg hh, List.append_nil]
    exact if_neg hh

theorem fit_succ {a : ℕ} (ha : a ≤ 8) :
    fit ((a : ℤ) + 1) .sumTooLarge = .ok ((a + 1 : ℕ) : ℤ) := by
  rw [← fit_natCast (by omega)]
  push_cast
  rfl

theorem writeZeros_row (count : ℕ) (digits : List Digit) :
    writeZeros count (Digit.row digits) =
      Digit.row (digits ++ List.replicate count .zero) := by
  rw [Digit.row_append, Digit.row_replicate]
  rfl

theorem writeNines_row (count : ℕ) (digits : List Digit) :
    writeNines count (Digit.row digits) = Digit.row (digits ++ List.replicate count .nine) := by
  rw [Digit.row_append, Digit.row_replicate]
  rfl

theorem settle_ten (policy : Policy) {s : State} {raised : ℤ} {written : String}
    (hfit : fit (s.predigit + 1) .sumTooLarge = .ok raised)
    (hwrite : write raised s.written = .ok written) :
    settle policy 10 s = .ok { s with
      predigit := if policy = .resetBoth then 0 else s.predigit
      nines := 0
      holding := true
      written := writeZeros s.nines written } := by
  rw [settle, if_neg (by norm_num), if_pos rfl]
  simp only [hfit, hwrite, Bind.bind, Except.bind]
  rfl

theorem settle_ofExact (hs : t.Sound n) (columns : List ℤ) :
    settle t.policy t.carry { ofExact t with columns } =
      .ok { ofExact t.afterSweep with columns } := by
  have hp := hs.predigit_le
  rcases Waiting.carry_cases hs.carry_le with hc | hc | hc
  · rw [hc, settle, if_pos (by rfl)]
    simp only [ofExact, Exact.afterSweep, Exact.digits, hc, Waiting.released, Waiting.after,
      Waiting.kind_nine, List.append_nil]
    rfl
  · have hwrite := write_natCast (show t.waiting.predigit + 1 ≤ 9 by omega) t.settled
    have hsettle := settle_ten t.policy (s := { ofExact t with columns }) (fit_succ hp) hwrite
    rw [show (t.carry : ℤ) = 10 by omega, hsettle]
    simp only [ofExact, Exact.afterSweep, Exact.digits, hc, Waiting.released, Waiting.after,
      Waiting.kind_ten, Nat.cast_ite, Nat.cast_zero, writeZeros_row, List.append_assoc,
      List.singleton_append]
  · have hfront := writeFront_ofExact hp columns
    rw [settle, if_neg (by omega), if_neg (by omega)]
    simp only [hfront, Bind.bind, Except.bind]
    simp only [ofExact, Exact.afterSweep, Exact.digits, Waiting.released, Waiting.after,
      Waiting.kind_settled hc, writeNines_row, List.append_assoc]
    rfl

theorem step_ofExact (hs : t.Sound n) (hfit : 39 * columnCount n ≤ 2 ^ 63) :
    step t.policy (ofExact t) = .ok (ofExact t.afterSweep) := by
  have hlength := hs.length
  have hsweep : sweep 1 (ofExact t).columns = .ok (ofPass (pass 1 t.columns)) :=
    sweep_back [] t.columns hs.shaped (by rw [List.nil_append, hlength]; exact hfit)
  have hcolumns : (((pass 1 t.columns).2.map Nat.cast).modifyHead
      fun _ => ((pass 1 t.columns).1 : ℤ).tmod 10) = (ofExact t.afterSweep).columns := by
    simp only [ofExact, Exact.afterSweep, reduce]
    cases (pass 1 t.columns).2 <;> rfl
  have hsettle := settle_ofExact hs (ofExact t.afterSweep).columns
  rw [step, hsweep]
  change settle t.policy t.carry { ofExact t with columns := List.modifyHead _ _ } = _
  rw [hcolumns, hsettle]

theorem kept_steps (hfit : 39 * columnCount n ≤ 2 ^ 63) (policy : Policy)
    (s : Except Violation State) :
    Exact.Kept n fun t => t.Sound n ∧ t.policy = policy ∧
      steps policy (n - t.carries.length) (ofExact t) = s where
  sweep {t} h hf hl := by
    obtain ⟨hs, rfl, hsteps⟩ := h
    refine ⟨(Exact.kept_sound n).sweep hs hf hl, rfl, ?_⟩
    have hcount : n - t.carries.length = n - t.afterSweep.carries.length + 1 := by
      simp only [Exact.afterSweep, List.length_append, List.length_singleton]
      omega
    rw [hcount, steps, step_ofExact hs hfit] at hsteps
    exact hsteps
  finish h hf hl := ⟨(Exact.kept_sound n).finish h.1 hf hl, h.2⟩
  pending h digits := ⟨(Exact.kept_sound n).pending h.1 digits, h.2⟩

theorem start_columnCount (policy : Policy) :
    start (columnCount n) = ofExact ((Exact.start n).withPolicy policy) := by
  rw [start, ofExact]
  simp [Exact.withPolicy, Exact.start, Waiting.empty, Digit.row]

theorem steps_start (hfit : 39 * columnCount n ≤ 2 ^ 63) (hn : n < Machine.roundLimit)
    (policy : Policy) :
    steps policy n (start (columnCount n)) = .ok (ofExact (Exact.final n policy)) := by
  have hended := (Exact.final_ended policy hn).2
  obtain ⟨-, -, hsteps⟩ :=
    (kept_steps hfit policy (steps policy n (start (columnCount n)))).take
      (t := (Exact.start n).withPolicy policy)
      ⟨(Exact.sound_start n).withPolicy policy, rfl, by rw [start_columnCount policy]; rfl⟩
      Machine.roundLimit
  rw [← Exact.final, hended.carries, Nat.sub_self] at hsteps
  exact hsteps.symm

theorem digits_eq {digitCount : UInt64} (h : Spigot.Admissible digitCount) (policy : Policy) :
    digits digitCount policy =
      .ok (Digit.row (Exact.final digitCount.toNat policy).output) := by
  have hsmall := h.lt.le
  have hended := (Exact.final_ended policy h.lt_roundLimit).2
  have hfront := writeFront_ofExact (Exact.sound_final digitCount.toNat policy).predigit_le
    (ofExact (Exact.final digitCount.toNat policy)).columns
  have hl := Exact.lt_columnCount digitCount.toNat
  have hcount : (UInt64.ofNat (columnCount digitCount.toNat)).toNat = columnCount digitCount.toNat :=
    Spigot.toNat_size (by omega)
  have hlimit : ¬ Columns.sizeLimit < UInt64.ofNat (columnCount digitCount.toNat) :=
    UInt64.not_lt.2 (Spigot.size_le_sizeLimit (by omega))
  rw [Exact.output, if_pos hended.flushed, ← hfront, digits, Spigot.count_eq (by omega)]
  simp only [Bind.bind, Except.bind, if_neg hlimit, hcount,
    steps_start hsmall h.lt_roundLimit policy]

end Direct

theorem Spigot.rest_eq_direct (digitCount : UInt64) (policy : Policy)
    (h : Admissible digitCount) :
    ∃ (s : Spigot Unit) (digits : List Digit) (s' : Spigot Unit) (text : String),
      start .native () digitCount = .ok s ∧ rest (s.withPolicy policy) = .ok digits s' ∧
      s'.fault? = none ∧ (∃ s'', next s' = .ok none s'') ∧
      Direct.digits digitCount policy = .ok text ∧ digits.mapM Digit.toChar = .ok text.toList := by
  obtain ⟨s, s', hs, -, hrest, hfollows, -, hnext⟩ :=
    rest_start () h (h.serves_machine .native) policy
  have hsound := Exact.sound_final digitCount.toNat policy
  exact ⟨s, _, s', _, hs, hrest, hfollows.fault?, hnext, Direct.digits_eq h policy,
    Digit.mapM_toChar fun d hd => hsound.isDecimal_output hd⟩

theorem Spigot.rest_eq_direct_hundred :
    Admissible 100 ∧
      ∃ (s : Spigot Unit) (digits : List Digit) (s' : Spigot Unit) (text : String),
        start .native () 100 = .ok s ∧ rest (s.withPolicy .keepPredigit) = .ok digits s' ∧
        Direct.digits 100 .keepPredigit = .ok text ∧
        digits.mapM Digit.toChar = .ok text.toList := by
  obtain ⟨s, digits, s', text, hs, hrest, -, -, hdirect, hchars⟩ :=
    rest_eq_direct 100 .keepPredigit (by decide)
  exact ⟨by decide, s, digits, s', text, hs, hrest, hdirect, hchars⟩

end PiDigits
