import PiDigits.Proofs.SpigotRun

/-!
A computation on a machine that is right never ends in a fault, and it is known in advance how many
digits there will be, but for the nines that wait at the end. The first carry is three and the
second is small, so no carry reaches back to the first digit.
-/

namespace PiDigits

open Radix Series

def Reply.digits : Reply → List Digit
  | .stepped (.ok (some digits)) => digits
  | .handed (some digit) => [digit]
  | _ => []

def Event.carry? : Event → Option (ℕ × Word)
  | .sweepCompleted sweep carry => some (sweep, carry)
  | _ => none

namespace Exact

variable {n : ℕ} {t t' : Exact} {handed more : List Digit}

structure Logged (t : Exact) : Prop where
  carries_le : ∀ carry ∈ t.carries, carry ≤ 10
  logged : t.events.filterMap Event.carry? =
    t.carries.mapIdx fun k carry => (k + 1, Int64.ofNat carry)

theorem filterMap_carry?_emitted (sweep : ℕ) (digits : List Digit) :
    (emitted sweep digits).filterMap Event.carry? = [] := by
  rw [emitted]
  split <;> rfl

theorem filterMap_carry?_sweepEvents (t : Exact) :
    t.sweepEvents.filterMap Event.carry? = [(t.carries.length + 1, Int64.ofNat t.carry)] := by
  rw [sweepEvents, List.filterMap_append, filterMap_carry?_emitted, List.append_nil]
  split <;> rfl

theorem logged_start (n : ℕ) : (start n).Logged where
  carries_le _ hcarry := by cases hcarry
  logged := rfl

theorem Logged.afterSweep (h : t.Logged) (hs : t.Sound n) : t.afterSweep.Logged where
  carries_le carry hcarry := by
    rcases List.mem_append.1 hcarry with hcarry | hcarry
    · exact h.carries_le carry hcarry
    · rw [List.mem_singleton.1 hcarry]
      exact hs.carry_le
  logged := by
    rw [Exact.afterSweep, List.filterMap_append, h.logged, filterMap_carry?_sweepEvents,
      List.mapIdx_concat]

theorem Logged.afterEnd (h : t.Logged) : t.afterEnd.Logged where
  carries_le := h.carries_le
  logged := by
    rw [Exact.afterEnd, List.filterMap_append, endEvents, List.filterMap_append,
      filterMap_carry?_emitted, h.logged]
    exact List.append_nil _

structure Opened (t : Exact) : Prop where
  first : t.carries.length = 1 → t.waiting = ⟨3, 0, true⟩
  rest : 2 ≤ t.carries.length → t.settled.head? = some (.ofNat 3)

theorem opened_start (n : ℕ) : (start n).Opened where
  first h := by cases h
  rest h := by cases h

theorem Counted.single (h : t.Counted n) (hone : t.carries.length = 1)
    (hw : t.waiting = ⟨3, 0, true⟩) : t.carries = [3] ∧ t.settled = [] := by
  obtain ⟨carry, hcarry⟩ := List.length_eq_one_iff.1 hone
  obtain ⟨hhead, -, hcount⟩ := h.counted (by simp [hcarry])
  rw [hone, hw] at hcount
  refine ⟨?_, List.length_eq_zero_iff.1 (by simpa using hcount)⟩
  rw [hcarry] at hhead ⊢
  rw [Option.some.inj hhead]

theorem second_carry_le (hs : t.Sound n) (hv : t.Valued n) (hc : t.carries = [3]) :
    t.carry ≤ 8 := by
  -- the sum is at most 10 / 3, of which the first three leaves 1 / 3
  have hcolumns : 2 ≤ columnCount n := by
    have hle := hs.carries_le
    rw [hc, List.length_singleton] at hle
    rw [columnCount]
    omega
  have hsum : partialSum (columnCount n) ≤ 10 / 3 := by
    refine (partialSum_le_of_le (by norm_num) hcolumns).trans_eq ?_
    norm_num [partialSum, weight, Finset.sum_Icc_succ_top]
  have hvalue : (10 : ℚ) ^ 1 * partialSum (columnCount n) = 10 * (3 : ℕ) + value 1 t.columns := by
    have hv' : (10 : ℚ) ^ t.carries.length * partialSum (columnCount n) = _ := hv
    rwa [hc, spelled_singleton] at hv'
  have hreduce := value_reduce hs.shaped
  have hrest := value_nonneg (le_refl 1) (reduce t.columns).2
  have hle : (t.carry : ℚ) ≤ 10 / 3 := by
    rw [carry]
    push_cast at hvalue
    linarith
  have : (t.carry : ℚ) < 9 := hle.trans_lt (by norm_num)
  have : t.carry < 9 := by exact_mod_cast this
  omega

theorem Opened.afterSweep (h : t.Opened) (hs : t.Sound n) (hv : t.Valued n) (hc : t.Counted n)
    (hl : t.carries.length < n) : t.afterSweep.Opened where
  first hone := by
    have hnil : t.carries = [] := by simpa [Exact.afterSweep] using hone
    obtain ⟨-, hwaiting, -⟩ := hc.fresh hnil
    rw [Exact.afterSweep, hwaiting, hc.first_carry (Nat.one_le_of_lt hl) hnil]
    rfl
  rest htwo := by
    by_cases hone : t.carries.length = 1
    · have hwaiting := h.first hone
      obtain ⟨hthree, hsettled⟩ := hc.single hone hwaiting
      have hsmall := second_carry_le hs hv hthree
      simp [Exact.afterSweep, hsettled, digits, hwaiting, Waiting.released,
        Waiting.kind_settled hsmall, Waiting.front]
    · have hrest := h.rest (by simp [Exact.afterSweep] at htwo; omega)
      simp [Exact.afterSweep, hrest]

theorem Ended.head?_output (he : t.Ended n) (hc : t.Counted n) (ho : t.Opened) (hn : 1 ≤ n) :
    t.output.head? = some (.ofNat 3) := by
  have hlength := he.carries
  rw [(he.output hc hn).1]
  by_cases hone : t.carries.length = 1
  · have hwaiting := ho.first hone
    rw [(hc.single hone hwaiting).2, hwaiting]
    rfl
  · rw [List.head?_append, ho.rest (by omega)]
    rfl

structure Fine (n : ℕ) (t : Exact) : Prop where
  sound : t.Sound n
  valued : t.Valued n
  counted : t.Counted n
  logged : t.Logged
  opened : t.Opened

theorem fine_start (n : ℕ) : (start n).Fine n :=
  ⟨sound_start n, valued_start n, counted_start n, logged_start n, opened_start n⟩

theorem kept_fine (n : ℕ) : Kept n (Fine n) where
  sweep h hf hl := {
    sound := (kept_sound n).sweep h.sound hf hl
    valued := ((kept_valued n).sweep ⟨h.sound, h.valued⟩ hf hl).2
    counted := (kept_counted n).sweep h.counted hf hl
    logged := h.logged.afterSweep h.sound
    opened := h.opened.afterSweep h.sound h.valued h.counted hl }
  finish h hf hl := {
    sound := (kept_sound n).finish h.sound hf hl
    valued := h.valued
    counted := { h.counted with }
    logged := h.logged.afterEnd
    opened := { h.opened with } }
  pending h _ := ⟨{ h.sound with }, h.valued, { h.counted with }, { h.logged with },
    { h.opened with }⟩

theorem Fine.withPolicy (h : t.Fine n) (policy : Policy) : (t.withPolicy policy).Fine n :=
  ⟨h.sound.withPolicy policy, h.valued, h.counted.withPolicy policy, { h.logged with },
    { h.opened with }⟩

/-- A caller who mixes calls gets digits of a step ahead of those still pending, so that the digits
handed out agree with those released in their number and in the first of them only. -/
structure Delivered (t : Exact) (handed : List Digit) : Prop where
  length : handed.length + t.pending.length = t.output.length
  head? : handed.head? = t.output.head?

theorem Delivered.step (h : t.Delivered handed) :
    (t.step n).2.Delivered (handed ++ (t.step n).1.getD []) where
  length := by
    have hlength := h.length
    have hpending : (t.step n).2.pending = t.pending := by
      rw [Exact.step]
      split
      · rfl
      · split <;> rfl
    rw [output_step, hpending, List.length_append, List.length_append]
    omega
  head? := by rw [output_step, List.head?_append, List.head?_append, h.head?]

theorem Delivered.hands (h : t.Delivered handed) (ht : Hands t t' more)
    (hp : more = [] → t'.pending = []) : t'.Delivered (handed ++ more) := by
  obtain ⟨released, hout, hpending⟩ := ht
  have hlength := h.length
  have hlength' := congrArg List.length hpending
  rw [List.length_append, List.length_append] at hlength'
  constructor
  · rw [hout, List.length_append, List.length_append]
    omega
  · rw [hout, List.head?_append, List.head?_append, h.head?]
    cases ho : t.output with
    | cons digit rest => rfl
    | nil =>
      -- nothing was released before, so nothing is pending
      rw [ho, List.length_nil] at hlength
      rw [List.length_eq_zero_iff.1 (show t.pending.length = 0 by omega), List.nil_append]
        at hpending
      rw [hpending]
      cases more with
      | nil =>
        rw [hp rfl]
        rfl
      | cons digit rest => rfl

theorem Delivered.call (h : t.Delivered handed) (call : Call) :
    (t.call n call).2.Delivered (handed ++ (t.call n call).1.digits) := by
  cases call with
  | step =>
    have hstep := h.step (n := n)
    rw [Exact.call]
    cases hd : (t.step n).1 with
    | none => rwa [hd] at hstep
    | some digits => rwa [hd] at hstep
  | next =>
    have hnext := h.hands (next_hands n t) fun he => (next_none (by simpa using he)).2
    rw [Exact.call]
    cases hd : (t.next n).1 with
    | none => rwa [hd] at hnext
    | some digit => rwa [hd] at hnext
  | withPolicy policy =>
    rw [show (t.call n (.withPolicy policy)).1.digits = [] from rfl, List.append_nil]
    exact { h with }

theorem Delivered.calls (h : t.Delivered handed) (calls : List Call) :
    (t.calls n calls).2.Delivered (handed ++ (t.calls n calls).1.flatMap Reply.digits) := by
  induction calls generalizing t handed with
  | nil =>
    rw [Exact.calls, List.flatMap_nil, List.append_nil]
    exact h
  | cons call calls ih =>
    rw [Exact.calls, List.flatMap_cons, ← List.append_assoc]
    exact ih (h.call call)

theorem Delivered.take (h : t.Delivered handed) (hs : t.Sound n) (hc : t.Counted n)
    (hn : n < Machine.roundLimit) :
    (t.take n Machine.roundLimit).2.Ended n ∧
      (t.take n Machine.roundLimit).2.Delivered (handed ++ (t.take n Machine.roundLimit).1) := by
  have hended := take_ended hs hc (by rw [← h.length]; omega) hn
  exact ⟨hended, h.hands (take_hands n _ t) fun _ => hended.pending⟩

theorem fault_not_mem_calls (fault : Fault) (calls : List Call) :
    .stepped (.error fault) ∉ (t.calls n calls).1 := by
  induction calls generalizing t with
  | nil => exact List.not_mem_nil
  | cons call calls ih =>
    rw [Exact.calls, List.mem_cons, not_or]
    refine ⟨?_, ih⟩
    cases call <;> simp [Exact.call]

end Exact

namespace Spigot

variable {σ : Type} {m : Machine σ} {n : ℕ} {s : Spigot σ} {t : Exact}

structure Faultless (s : Spigot σ) : Prop where
  fault? : s.fault? = none
  predigit : 0 ≤ s.held.predigit.toInt ∧ s.held.predigit.toInt ≤ 8
  carries : ∃ carries : List ℕ,
    s.sweepsCompleted = .ok carries.length ∧
    s.events.filterMap Event.carry? =
      (carries.mapIdx fun k carry => (k + 1, Int64.ofNat carry)) ∧
    (∀ carry ∈ carries, carry ≤ 10) ∧ (carries ≠ [] → carries.head? = some 3)
  reducedCarry : ∃ carry s', s.reducedCarry = .ok carry s' ∧
    0 ≤ carry.toInt ∧ carry.toInt ≤ 10 ∧ (s.nextSweep = 1 → carry = 3)
  counted : ∀ sweeps, s.sweepsCompleted = .ok sweeps → 1 ≤ sweeps → s.flushed = false →
    s.held.holding = true ∧ s.digitsReleased + s.held.nines.toInt + 1 = sweeps
  step : ∃ digits s', s.step = .ok (.ok digits) s'
  next : ∃ digit? s', s.next = .ok digit? s' ∧ s'.fault? = none
  collect : ∃ expansion s', s.collect = .ok (.ok expansion) s' ∧ s'.fault? = none

theorem Follows.faultless (h : Follows m s n t) (ht : t.Fine n) (hn : 1 ≤ n) : s.Faultless := by
  have hsmall := h.serves.small
  have hl := Exact.lt_columnCount n
  have hc := ht.sound.carries_le
  have hp := ht.sound.predigit_le
  have hle := ht.sound.carry_le
  have hsweeps := h.sweepsCompleted ht.sound
  constructor
  case fault? => exact h.fault?
  case predigit =>
    rw [h.held, Waiting.toHeld, Int64.toInt_ofNat_of_lt (by omega)]
    omega
  case carries =>
    refine ⟨t.carries, hsweeps, ?_, ht.logged.carries_le, fun he => (ht.counted.counted he).1⟩
    rw [h.events, ht.logged.logged]
  case reducedCarry =>
    apply reducedCarry_ends h ht.sound hn
    intro memory
    rw [Int64.toInt_ofNat_of_lt (by omega)]
    refine ⟨by omega, by omega, fun hfirst => ?_⟩
    rw [h.nextSweep] at hfirst
    have hnil : t.carries = [] := by
      have hword := congrArg Int64.toInt hfirst
      rw [Int64.toInt_ofNat_of_lt (by omega)] at hword
      exact List.length_eq_zero_iff.1 (by simpa using hword)
    rw [ht.counted.first_carry hn hnil]
    rfl
  case counted =>
    intro sweeps hs hone hf
    rw [hsweeps] at hs
    cases hs
    obtain ⟨-, hholding, hcount⟩ :=
      ht.counted.counted fun he => by simp [he] at hone
    rw [h.flushed] at hf
    refine ⟨(congrArg Held.holding h.held).trans hholding, ?_⟩
    rw [h.toInt_nines ht.sound, h.digitsReleased, Exact.output, hf]
    simp only [Bool.false_eq_true, if_false, List.append_nil]
    exact_mod_cast hcount
  case step =>
    obtain ⟨_, s', hs', rfl, -⟩ := step_ends h ht.sound
    exact ⟨_, s', hs'⟩
  case next =>
    obtain ⟨digit?, s', hs', -, hfollows⟩ := next_ends h ht.sound
    exact ⟨digit?, s', hs', hfollows.fault?⟩
  case collect =>
    obtain ⟨_, s', hs', rfl, hfollows⟩ := collect_ends h ht.sound
    exact ⟨_, s', hs', hfollows.fault?⟩

theorem Follows.collect_complete (h : Follows m s n t) (ht : t.Fine n) (hn : 1 ≤ n)
    (hlimit : n < Machine.roundLimit) {handed : List Digit} (hd : t.Delivered handed) :
    ∃ expansion s' nines, s.collect = .ok (.ok expansion) s' ∧ s'.Faultless ∧
      s'.flushed = true ∧ s'.pending = [] ∧ s'.held.nines.toInt = (nines : ℕ) ∧
      (handed ++ expansion.digits).head? = some (.ofNat 3) ∧
      (handed ++ expansion.digits).length + nines = n := by
  obtain ⟨_, s', hs', rfl, hfollows⟩ := collect_ends h ht.sound
  have ht' := (Exact.kept_fine n).take ht Machine.roundLimit
  obtain ⟨hended, hd'⟩ := hd.take ht.sound ht.counted hlimit
  have hcount := (hended.output ht'.counted hn).2
  rw [← hd'.length, hended.pending, List.length_nil, Nat.add_zero] at hcount
  refine ⟨_, s', _, hs', hfollows.faultless ht' hn, ?_, ?_, hfollows.toInt_nines ht'.sound, ?_,
    hcount⟩
  · rw [hfollows.flushed, hended.flushed]
  · rw [hfollows.pending, hended.pending]
  · exact hd'.head?.trans (hended.head?_output ht'.counted ht'.opened hn)

/-- Wherever a computation comes there is no fault. Whatever calls are made, together with what can
be collected after them they give a three first and a digit for each sweep, but for the nines that
are left. -/
theorem performAll_faultless (a : Arithmetic) (digitCount : UInt64) (h : Admissible digitCount)
    (hn : 1 ≤ digitCount.toNat) :
    ∃ s : Spigot Unit, start a.machine () digitCount = .ok s ∧
      (∀ s', Visited s s' → s'.Faultless) ∧
      ∀ calls, ∃ replies s' expansion s'' nines,
        performAll calls s = .ok replies s' ∧ Visited s s' ∧
        (∀ fault, .stepped (.error fault) ∉ replies) ∧
        collect s' = .ok (.ok expansion) s'' ∧ s''.Faultless ∧
        s''.flushed = true ∧ s''.pending = [] ∧ s''.held.nines.toInt = (nines : ℕ) ∧
        (replies.flatMap Reply.digits ++ expansion.digits).head? = some (.ofNat 3) ∧
        (replies.flatMap Reply.digits ++ expansion.digits).length + nines = digitCount.toNat := by
  obtain ⟨s, hs, hfollows⟩ := start_follows () digitCount (h.serves_machine a)
  have hfine := Exact.fine_start digitCount.toNat
  refine ⟨s, hs, ?_, ?_⟩
  · intro s' hvisited
    obtain ⟨t, ht, hfollows'⟩ := hvisited.follows_kept (Exact.kept_fine _)
      (fun _ policy ht => ht.withPolicy policy) (fun _ ht => ht.sound) hfollows hfine
    exact hfollows'.faultless ht hn
  · intro calls
    have ht := (Exact.kept_fine _).calls hfine (fun _ policy ht => ht.withPolicy policy) calls
    have hdelivered : (Exact.start digitCount.toNat).Delivered [] := ⟨rfl, rfl⟩
    obtain ⟨_, s', hs', rfl, hfollows'⟩ := performAll_ends hfollows hfine.sound calls
    obtain ⟨expansion, s'', nines, hs'', hcomplete⟩ :=
      hfollows'.collect_complete ht hn h.lt_roundLimit (hdelivered.calls calls)
    exact ⟨_, s', expansion, s'', nines, hs', Visited.start.performAll hs',
      fun fault => Exact.fault_not_mem_calls fault calls, hs'', hcomplete⟩

theorem performAll_faultless_counting_thirty_four :
    Admissible 34 ∧ 1 ≤ (34 : UInt64).toNat ∧
      ∃ (s s' s'' : Spigot Unit) (replies : List Reply) (expansion : Expansion) (nines : ℕ),
        start Arithmetic.counting.machine () 34 = .ok s ∧
        performAll [.next, .step, .withPolicy .keepPredigit, .step] s = .ok replies s' ∧
        s'.Faultless ∧ collect s' = .ok (.ok expansion) s'' ∧
        (replies.flatMap Reply.digits ++ expansion.digits).head? = some (.ofNat 3) ∧
        (replies.flatMap Reply.digits ++ expansion.digits).length + nines = 34 := by
  obtain ⟨s, hs, hfaultless, hcalls⟩ := performAll_faultless .counting 34 (by decide) (by decide)
  obtain ⟨replies, s', expansion, s'', nines, hs', hvisited, -, hs'', -, -, -, -, hhead, hcount⟩ :=
    hcalls [.next, .step, .withPolicy .keepPredigit, .step]
  exact ⟨by decide, by decide, s, s', s'', replies, expansion, nines, hs, hs',
    hfaultless s' hvisited, hs'', hhead, hcount⟩

end Spigot

end PiDigits
