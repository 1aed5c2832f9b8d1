import PiDigits.Proofs.ExactRun

/-!
What holds of the computation on natural numbers at any time: `Sound`, the shape of its state;
`Valued`, the carries so far and the columns together are the partial sum they started from;
`Counted`, no digit is lost or made up; and, while the predigit is reset after a carry of ten,
`Spelled`, the digits are those of the carries.
-/

namespace PiDigits.Exact

open Radix Series

variable {n : ℕ} {t : Exact}

theorem columnCount_pos (n : ℕ) : 1 ≤ columnCount n := Nat.succ_pos _

theorem lt_columnCount (n : ℕ) : n < columnCount n := by
  rw [columnCount]
  omega

structure Sound (n : ℕ) (t : Exact) : Prop where
  shaped : Shaped t.columns
  length : t.columns.length = columnCount n
  predigit_le : t.waiting.predigit ≤ 8
  nines_le : t.waiting.nines ≤ t.carries.length
  carries_le : t.carries.length ≤ n
  complete : t.flushed → t.carries.length = n
  decimal : ∀ d ∈ t.settled, d.IsDecimal

theorem Sound.carry_le (h : t.Sound n) : t.carry ≤ 10 := (reduce_shaped h.shaped).2.1

theorem sound_start (n : ℕ) : (start n).Sound n where
  shaped := shaped_replicate (columnCount_pos n)
  length := List.length_replicate
  predigit_le := Nat.zero_le _
  nines_le := le_rfl
  carries_le := Nat.zero_le _
  complete h := by simp [start] at h
  decimal _ hd := by cases hd

theorem kept_sound (n : ℕ) : Kept n (Sound n) where
  sweep {t} h hf hl := by
    obtain ⟨hs, hc, hlen⟩ := reduce_shaped h.shaped
    have hn := Waiting.nines_after_le t.policy t.waiting t.carry
    have := h.nines_le
    exact {
      shaped := hs
      length := hlen.trans h.length
      predigit_le := Waiting.predigit_after_le t.policy h.predigit_le hc
      nines_le := by
        simp only [afterSweep, List.length_append, List.length_singleton]
        omega
      carries_le := by
        simp only [afterSweep, List.length_append, List.length_singleton]
        omega
      complete := fun hf' => by simp [afterSweep, hf] at hf'
      decimal := fun d hd => by
        rcases List.mem_append.1 hd with hd | hd
        · exact h.decimal d hd
        · exact Waiting.isDecimal_released h.predigit_le hd }
  finish h _ hl := { h with complete := fun _ => Nat.le_antisymm h.carries_le hl }
  pending h _ := { h with }

theorem Sound.isDecimal_output (h : t.Sound n) {d : Digit} (hd : d ∈ t.output) : d.IsDecimal := by
  rw [output] at hd
  rcases List.mem_append.1 hd with hd | hd
  · exact h.decimal d hd
  · split at hd
    · exact Waiting.isDecimal_front h.predigit_le hd
    · cases hd

theorem Sound.withPolicy (h : t.Sound n) (policy : Policy) : (t.withPolicy policy).Sound n :=
  { h with }

def Valued (n : ℕ) (t : Exact) : Prop :=
  (10 : ℚ) ^ t.carries.length * partialSum (columnCount n) =
    10 * spelled t.carries + value 1 t.columns

theorem valued_start (n : ℕ) : (start n).Valued n := by
  have h := value_replicate 0 (columnCount n)
  rw [show partialSum 0 = 0 by simp [partialSum], Nat.zero_add, Nat.zero_add, sub_zero] at h
  simp only [Valued, start, h, spelled_nil, List.length_nil]
  norm_num

theorem kept_valued (n : ℕ) : Kept n fun t => t.Sound n ∧ t.Valued n where
  sweep {t} h hf hl := by
    refine ⟨(kept_sound n).sweep h.1 hf hl, ?_⟩
    have hv := value_reduce h.1.shaped
    have hold : (10 : ℚ) ^ t.carries.length * partialSum (columnCount n) = _ := h.2
    simp only [Valued, afterSweep, carry, List.length_append, List.length_singleton, spelled_snoc,
      pow_succ]
    push_cast
    linear_combination 10 * hold + hv
  finish h hf hl := ⟨(kept_sound n).finish h.1 hf hl, h.2⟩
  pending h digits := ⟨(kept_sound n).pending h.1 digits, h.2⟩

structure Counted (n : ℕ) (t : Exact) : Prop where
  fresh : t.carries = [] →
    t.columns = List.replicate (columnCount n) 2 ∧ t.waiting = .empty ∧ t.settled = []
  counted : t.carries ≠ [] → t.carries.head? = some 3 ∧ t.waiting.holding = true ∧
    t.settled.length + t.waiting.nines + 1 = t.carries.length

theorem counted_start (n : ℕ) : (start n).Counted n where
  fresh _ := ⟨rfl, rfl, rfl⟩
  counted h := (h rfl).elim

theorem Counted.first_carry (h : t.Counted n) (hn : 1 ≤ n) (he : t.carries = []) :
    t.carry = 3 := by
  rw [carry, (h.fresh he).1]
  apply reduce_replicate
  rw [columnCount]
  omega

theorem kept_counted (n : ℕ) : Kept n (Counted n) where
  sweep {t} h _ hl := by
    refine ⟨fun he => by simp [afterSweep] at he, fun _ => ?_⟩
    simp only [afterSweep, List.length_append, List.length_singleton]
    by_cases he : t.carries = []
    · obtain ⟨-, hwaiting, hsettled⟩ := h.fresh he
      simp [he, h.first_carry (Nat.one_le_of_lt hl) he, hwaiting, hsettled, digits,
        Waiting.released, Waiting.after, Waiting.kind_settled, Waiting.empty, Waiting.front]
    · obtain ⟨hhead, hh, hcount⟩ := h.counted he
      obtain ⟨hh', hlen⟩ := Waiting.length_released hh t.policy t.carry
      refine ⟨?_, hh', ?_⟩
      · rw [List.head?_append_of_ne_nil _ he, hhead]
      · simp only [digits]
        omega
  finish h _ _ := { h with }
  pending h _ := { h with }

theorem Counted.withPolicy (h : t.Counted n) (policy : Policy) : (t.withPolicy policy).Counted n :=
  { h with }

theorem length_output_le (h : t.Counted n) : t.output.length ≤ t.carries.length := by
  have hfront : t.waiting.front.length ≤ 1 := by
    rw [Waiting.front]
    split <;> simp
  by_cases he : t.carries = []
  · obtain ⟨-, hwaiting, hsettled⟩ := h.fresh he
    simp [output, hwaiting, hsettled, Waiting.empty, Waiting.front]
  · obtain ⟨-, -, hcount⟩ := h.counted he
    rw [output, List.length_append]
    split
    · omega
    · rw [List.length_nil]
      omega

structure Spelled (t : Exact) : Prop where
  policy : t.policy = .resetBoth
  placed : t.waiting.Placed t.settled
  spelled : Digit.number t.settled * 10 ^ (t.waiting.nines + 1) + t.waiting.worth =
    PiDigits.spelled t.carries + 1

theorem spelled_start (n : ℕ) : (start n).Spelled := by
  refine ⟨rfl, fun _ => ⟨rfl, rfl⟩, ?_⟩
  simp [start, Waiting.empty, Waiting.worth]

theorem kept_spelled (n : ℕ) : Kept n fun t => t.Sound n ∧ t.Spelled where
  sweep {t} h hf hl := by
    have hc := h.1.carry_le
    have hs := Waiting.spelled_after hc h.1.predigit_le h.2.placed
    have hold := h.2.spelled
    refine ⟨(kept_sound n).sweep h.1 hf hl, h.2.policy, h.2.placed.after t.policy hc, ?_⟩
    simp only [afterSweep, digits, h.2.policy, spelled_snoc] at hs ⊢
    omega
  finish h hf hl := ⟨(kept_sound n).finish h.1 hf hl, { h.2 with }⟩
  pending h digits := ⟨(kept_sound n).pending h.1 digits, { h.2 with }⟩

theorem output_step (n : ℕ) (t : Exact) :
    (t.step n).2.output = t.output ++ (t.step n).1.getD [] := by
  rw [step]
  split
  · simp
  · rename_i hf
    rw [Bool.not_eq_true] at hf
    split
    · simp [output, afterSweep, hf]
    · simp [output, afterEnd, hf]

/-- On the way from `t` to `t'` digits are released behind those that are pending, and `handed` is
taken off the front. -/
def Hands (t t' : Exact) (handed : List Digit) : Prop :=
  ∃ released, t'.output = t.output ++ released ∧ t.pending ++ released = handed ++ t'.pending

theorem Hands.refl (t : Exact) : Hands t t [] := ⟨[], by simp⟩

theorem Hands.trans {t t' t'' : Exact} {handed more : List Digit} (h : Hands t t' handed)
    (h' : Hands t' t'' more) : Hands t t'' (handed ++ more) := by
  obtain ⟨released, hout, hpending⟩ := h
  obtain ⟨released', hout', hpending'⟩ := h'
  refine ⟨released ++ released', ?_, ?_⟩
  · rw [hout', hout, List.append_assoc]
  · rw [← List.append_assoc, hpending, List.append_assoc, hpending', List.append_assoc]

theorem advance_hands (n : ℕ) (t : Exact) :
    Hands t (t.advance n).2 ((t.advance n).1.getD none).toList := by
  rw [advance]
  cases hp : t.pending with
  | cons digit rest => exact ⟨[], (List.append_nil _).symm, by simp [hp]⟩
  | nil =>
    dsimp only
    split
    · exact Hands.refl t
    · exact ⟨(t.step n).1.getD [], output_step n t, by simp [hp]⟩

theorem advance_none (h : (t.advance n).1 = some none) :
    (t.advance n).2.flushed = true ∧ (t.advance n).2.pending = [] := by
  rw [advance] at h ⊢
  cases hp : t.pending with
  | cons digit rest => simp [hp] at h
  | nil =>
    simp only [hp] at h ⊢
    split at h
    · rename_i hf
      rw [if_pos hf]
      exact ⟨hf, hp⟩
    · cases h

theorem next_hands (n : ℕ) (t : Exact) : Hands t (t.next n).2 (t.next n).1.toList := by
  fun_induction Exact.next n t with
  | case1 t digit? t' he =>
    have ha := advance_hands n t
    rwa [he] at ha
  | case2 t t' he ih =>
    have ha := advance_hands n t
    rw [he] at ha
    exact ha.trans ih

theorem next_none (h : (t.next n).1 = none) :
    (t.next n).2.flushed = true ∧ (t.next n).2.pending = [] := by
  fun_induction Exact.next n t with
  | case1 t digit? t' he =>
    have ha := advance_none (n := n) (t := t)
    rw [he] at ha
    exact ha (congrArg some h)
  | case2 t t' he ih => exact ih h

theorem take_hands (n count : ℕ) (t : Exact) :
    Hands t (t.take n count).2 (t.take n count).1 := by
  induction count generalizing t with
  | zero => exact Hands.refl t
  | succ count ih =>
    have hnext := next_hands n t
    rw [take]
    cases hn : t.next n with
    | mk digit? t' =>
      rw [hn] at hnext
      cases digit? with
      | none => exact hnext
      | some digit => exact hnext.trans (ih t')

theorem take_short (count : ℕ) (h : (t.take n count).1.length < count) :
    (t.take n count).2.flushed = true ∧ (t.take n count).2.pending = [] := by
  induction count generalizing t with
  | zero => simp at h
  | succ count ih =>
    have hnone := next_none (n := n) (t := t)
    rw [take] at h ⊢
    cases hn : t.next n with
    | mk digit? t' =>
      rw [hn] at hnone
      simp only [hn] at h ⊢
      cases digit? with
      | none => exact hnone rfl
      | some digit => exact ih (by simpa using h)

structure Ended (n : ℕ) (t : Exact) : Prop where
  flushed : t.flushed = true
  pending : t.pending = []
  carries : t.carries.length = n

theorem Ended.next (h : t.Ended n) : t.next n = (none, t) := by
  apply next_of_some
  rw [advance]
  simp [h.pending, h.flushed]

theorem Ended.output (he : t.Ended n) (hc : t.Counted n) (hn : 1 ≤ n) :
    t.output = t.settled ++ [.ofNat t.waiting.predigit] ∧
      t.output.length + t.waiting.nines = n := by
  have hne : t.carries ≠ [] := by
    rintro hnil
    have := he.carries
    rw [hnil, List.length_nil] at this
    omega
  obtain ⟨-, hh, hcount⟩ := hc.counted hne
  have hout : t.output = t.settled ++ [.ofNat t.waiting.predigit] := by
    rw [Exact.output, if_pos he.flushed, Waiting.front, if_pos hh]
  refine ⟨hout, ?_⟩
  rw [hout, List.length_append, List.length_singleton, ← he.carries]
  omega

def final (n : ℕ) (policy : Policy) : Exact :=
  (take n Machine.roundLimit ((start n).withPolicy policy)).2

theorem sound_final (n : ℕ) (policy : Policy) : (final n policy).Sound n :=
  (kept_sound n).take ((sound_start n).withPolicy policy) _

theorem counted_final (n : ℕ) (policy : Policy) : (final n policy).Counted n :=
  (kept_counted n).take ((counted_start n).withPolicy policy) _

theorem valued_final (n : ℕ) (policy : Policy) : (final n policy).Valued n :=
  ((kept_valued n).take (t := (start n).withPolicy policy)
    ⟨(sound_start n).withPolicy policy, valued_start n⟩ _).2

theorem spelled_final (n : ℕ) : (final n .resetBoth).Spelled :=
  ((kept_spelled n).take ⟨sound_start n, spelled_start n⟩ _).2

theorem take_ended (hs : t.Sound n) (hc : t.Counted n)
    (hp : t.pending.length ≤ t.output.length) (hn : n < Machine.roundLimit) :
    (t.take n Machine.roundLimit).2.Ended n := by
  have hs' := (kept_sound n).take hs Machine.roundLimit
  have hle := length_output_le ((kept_counted n).take hc Machine.roundLimit)
  have hcarries := hs'.carries_le
  obtain ⟨released, hout, hpending⟩ := take_hands n Machine.roundLimit t
  have hlength := congrArg List.length hpending
  rw [List.length_append, List.length_append] at hlength
  rw [hout, List.length_append] at hle
  obtain ⟨hflushed, hnone⟩ := take_short (n := n) (t := t) Machine.roundLimit (by omega)
  exact ⟨hflushed, hnone, hs'.complete hflushed⟩

theorem final_ended (policy : Policy) (hn : n < Machine.roundLimit) :
    (take n Machine.roundLimit ((start n).withPolicy policy)).1 = (final n policy).output ∧
      (final n policy).Ended n := by
  have hended : (final n policy).Ended n :=
    take_ended ((sound_start n).withPolicy policy) ((counted_start n).withPolicy policy)
      (le_refl 0) hn
  obtain ⟨released, hout, hpending⟩ :=
    take_hands n Machine.roundLimit ((start n).withPolicy policy)
  change (final n policy).output = [] ++ released at hout
  change [] ++ released = _ ++ (final n policy).pending at hpending
  rw [hended.pending, List.append_nil, ← hout] at hpending
  exact ⟨hpending.symm, hended⟩

end PiDigits.Exact
