import PiDigits.Proofs.WaitingDigits

namespace PiDigits

open Work

variable {σ : Type}

namespace Held

structure Taken where
  kind : CarryKind
  held : Held
  released : List Digit

def takeAll (m : Machine σ) : List (Policy × Word) → Held → Work σ (Except Fault (List Taken))
  | [], _ => return .ok []
  | (policy, carry) :: rest, h => do
    let (kind, held, released) ← h.classify m policy carry []
    match kind with
    | .error fault => return .error fault
    | .ok kind =>
      match ← takeAll m rest held with
      | .error fault => return .error fault
      | .ok taken => return .ok (⟨kind, held, released⟩ :: taken)

def afterTaken (h : Held) (taken : List Taken) : Held := (taken.getLast?.map Taken.held).getD h

def output (taken : List Taken) : List Digit := taken.flatMap Taken.released

def Ready (h : Held) : Prop :=
  h = empty ∨ ∃ predigit nines, h = pending predigit nines ∧ 0 ≤ predigit ∧ predigit ≤ 8 ∧ 0 ≤ nines

def digits (h : Held) : List Digit :=
  .ofNat h.predigit.toNatClampNeg :: List.replicate h.nines.toNatClampNeg .nine

def tally (h : Held) (out : List Digit) : ℕ :=
  out.length + h.nines.toNatClampNeg + if h.holding then 1 else 0

end Held

namespace Waiting

def afterAll (w : Waiting) (steps : List (Policy × ℕ)) : Waiting :=
  steps.foldl (fun w step => w.after step.1 step.2) w

def taken : List (Policy × ℕ) → Waiting → List Held.Taken
  | [], _ => []
  | (policy, carry) :: rest, w =>
    ⟨kind carry, (w.after policy carry).toHeld, w.released carry⟩ ::
      taken rest (w.after policy carry)

theorem takeAll_gives {m : Machine σ} {limit : ℕ} (hm : m.Serves limit) {w : Waiting}
    {steps : List (Policy × ℕ)} (hc : ∀ step ∈ steps, step.2 ≤ 10) (hp : w.predigit ≤ 8)
    (hn : w.nines + steps.length ≤ limit) :
    Gives (Held.takeAll m (steps.map fun step => (step.1, Int64.ofNat step.2)) w.toHeld)
      (.ok (taken steps w)) := by
  induction steps generalizing w with
  | nil => exact .pure _
  | cons step rest ih =>
    obtain ⟨policy, carry⟩ := step
    obtain ⟨hcarry, hrest⟩ := List.forall_mem_cons.1 hc
    change carry ≤ 10 at hcarry
    have hnines := nines_after_le policy w carry
    rw [List.length_cons] at hn
    rw [List.map_cons, Held.takeAll]
    apply (classify_gives hm policy hcarry hp (by omega) []).bind
    apply (ih hrest (predigit_after_le policy hp hcarry) (by omega)).bind
    exact .pure _

section

variable (w : Waiting) (steps more : List (Policy × ℕ)) (policy : Policy) (carry : ℕ)

theorem length_taken : (taken steps w).length = steps.length := by
  induction steps generalizing w with
  | nil => rfl
  | cons step rest ih => simp [taken, ih]

theorem take_taken (k : ℕ) : (taken steps w).take k = taken (steps.take k) w := by
  induction steps generalizing w k with
  | nil => simp [taken]
  | cons step rest ih =>
    cases k with
    | zero => rfl
    | succ k => simp [taken, ih]

theorem taken_append : taken (steps ++ more) w = taken steps w ++ taken more (w.afterAll steps) := by
  induction steps generalizing w with
  | nil => rfl
  | cons step rest ih => simp [taken, afterAll, ih]

theorem afterAll_snoc :
    w.afterAll (steps ++ [(policy, carry)]) = (w.afterAll steps).after policy carry := by
  simp [afterAll]

theorem output_snoc :
    Held.output (taken (steps ++ [(policy, carry)]) w) =
      Held.output (taken steps w) ++ (w.afterAll steps).released carry := by
  simp [taken_append, Held.output, taken]

theorem afterTaken_taken : w.toHeld.afterTaken (taken steps w) = (w.afterAll steps).toHeld := by
  induction steps using List.reverseRecOn with
  | nil => rfl
  | append_singleton steps step _ =>
    rw [taken_append, afterAll_snoc]
    simp [Held.afterTaken, taken]

end

structure Settled (w : Waiting) (out : List Digit) : Prop where
  predigit_le : w.predigit ≤ 8
  decimal : ∀ d ∈ out, d.IsDecimal
  placed : w.Placed out

theorem Settled.after {w : Waiting} {out : List Digit} (h : w.Settled out) (policy : Policy)
    {carry : ℕ} (hc : carry ≤ 10) : (w.after policy carry).Settled (out ++ w.released carry) where
  predigit_le := predigit_after_le policy h.predigit_le hc
  decimal := by
    intro d hd
    rcases List.mem_append.1 hd with hd | hd
    · exact h.decimal d hd
    · exact isDecimal_released h.predigit_le hd
  placed := h.placed.after policy hc

theorem Settled.afterAll {w : Waiting} (h : w.Settled []) {steps : List (Policy × ℕ)}
    (hc : ∀ step ∈ steps, step.2 ≤ 10) :
    (w.afterAll steps).Settled (Held.output (taken steps w)) := by
  induction steps using List.reverseRecOn with
  | nil => exact h
  | append_singleton steps step ih =>
    obtain ⟨policy, carry⟩ := step
    obtain ⟨hsteps, hcarry⟩ := List.forall_mem_append.1 hc
    rw [afterAll_snoc, output_snoc]
    exact (ih hsteps).after policy (hcarry _ (List.mem_singleton_self _))

theorem nines_afterAll_le (w : Waiting) (steps : List (Policy × ℕ)) :
    (w.afterAll steps).nines ≤ w.nines + steps.length := by
  induction steps using List.reverseRecOn with
  | nil => exact le_rfl
  | append_singleton steps step ih =>
    have := nines_after_le step.1 (w.afterAll steps) step.2
    rw [afterAll_snoc, List.length_append, List.length_singleton]
    omega

theorem spelled_afterAll {w : Waiting} (h : w.Settled []) {steps : List (Policy × ℕ)}
    (hc : ∀ step ∈ steps, step.1 = .resetBoth ∧ step.2 ≤ 10) :
    Digit.number (Held.output (taken steps w)) * 10 ^ ((w.afterAll steps).nines + 1) +
        (w.afterAll steps).worth + 10 ^ steps.length =
      w.worth * 10 ^ steps.length + spelled (steps.map Prod.snd) + 1 := by
  -- from the last carry on: only all digits before it say what its own step starts from
  induction steps using List.reverseRecOn with
  | nil => simp [taken, afterAll, Held.output]
  | append_singleton steps step ih =>
    obtain ⟨policy, carry⟩ := step
    obtain ⟨hsteps, hstep⟩ := List.forall_mem_append.1 hc
    obtain ⟨rfl, hcarry⟩ : policy = .resetBoth ∧ carry ≤ 10 := hstep _ (List.mem_singleton_self _)
    have hsettled := h.afterAll fun step hstep => (hsteps step hstep).2
    have hs := spelled_after hcarry hsettled.predigit_le hsettled.placed
    have hold := ih hsteps
    rw [afterAll_snoc, output_snoc, List.map_append, List.map_singleton, spelled_snoc,
      List.length_append, List.length_singleton, pow_succ 10 steps.length]
    dsimp only
    linarith

def tally (w : Waiting) (out : List Digit) : ℕ :=
  out.length + w.nines + if w.holding then 1 else 0

theorem tally_after (policy : Policy) (w : Waiting) (out : List Digit) (carry : ℕ) :
    (w.after policy carry).tally (out ++ w.released carry) =
      w.tally out + if kind carry = .ten ∧ w.holding = false then 2 else 1 := by
  rw [tally, tally, after, released, front]
  cases kind carry <;> cases w.holding <;> simp <;> omega

theorem toNatClampNeg_predigit {w : Waiting} (hp : w.predigit ≤ 8) :
    w.toHeld.predigit.toNatClampNeg = w.predigit := Int64.toNatClampNeg_ofNat_of_lt (by omega)

theorem number_digits {w : Waiting} (hp : w.predigit ≤ 8) (hn : w.nines < 2 ^ 63)
    (out : List Digit) :
    Digit.number (out ++ w.toHeld.digits) + 1 =
      Digit.number out * 10 ^ (w.nines + 1) + w.worth := by
  have hnines := Digit.number_nines_succ w.nines
  rw [Held.digits, toNatClampNeg_predigit hp, toHeld, Int64.toNatClampNeg_ofNat_of_lt hn,
    ← List.singleton_append, Digit.number_append, Digit.number_append,
    Digit.number_singleton (by omega), List.length_append, List.length_singleton,
    List.length_replicate, worth, Nat.add_comm 1, Nat.add_mul, one_mul]
  omega

theorem tally_toHeld {w : Waiting} (hn : w.nines < 2 ^ 63) (out : List Digit) :
    w.toHeld.tally out = w.tally out := by
  rw [Held.tally, toHeld, Int64.toNatClampNeg_ofNat_of_lt hn, tally]

end Waiting

namespace Held

theorem Ready.exists_waiting {h : Held} (hh : h.Ready) :
    ∃ w : Waiting, w.toHeld = h ∧ w.Settled [] ∧ w.nines = h.nines.toInt := by
  rcases hh with rfl | ⟨predigit, nines, rfl, hp, hp', hn⟩
  · exact ⟨.empty, rfl, ⟨Nat.zero_le _, by simp, fun _ => ⟨rfl, rfl⟩⟩, rfl⟩
  · refine ⟨⟨predigit.toNatClampNeg, nines.toNatClampNeg, true⟩, ?_, ⟨?_, by simp, ?_⟩, ?_⟩
    · rw [Waiting.toHeld, Int64.ofNat_toNatClampNeg _ hp, Int64.ofNat_toNatClampNeg _ hn, pending]
    · exact Int64.toNatClampNeg_le hp'
    · exact fun hf => by cases hf
    · exact Int64.cast_toNatClampNeg _ hn

theorem exists_carries {carries : List Word} (hc : ∀ carry ∈ carries, 0 ≤ carry ∧ carry ≤ 10) :
    ∃ numbers : List ℕ, carries = numbers.map Int64.ofNat ∧ ∀ carry ∈ numbers, carry ≤ 10 := by
  refine ⟨carries.map Int64.toNatClampNeg, ?_, ?_⟩
  · rw [List.map_map]
    refine (List.map_id carries).symm.trans (List.map_congr_left fun carry hcarry => ?_)
    exact (Int64.ofNat_toNatClampNeg carry (hc carry hcarry).1).symm
  · intro number hnumber
    obtain ⟨carry, hcarry, rfl⟩ := List.mem_map.1 hnumber
    exact Int64.toNatClampNeg_le (hc carry hcarry).2

/-- The digits in `out` and those that wait in `held` account for the carries, taken in after what
waits in `start`. -/
structure Spells (start : Held) (carries : List Word) (held : Held) (out : List Digit) : Prop where
  predigit_nonneg : 0 ≤ held.predigit
  predigit_le : held.predigit ≤ 8
  nines_nonneg : 0 ≤ held.nines
  decimal : ∀ d ∈ out, d.IsDecimal
  number : Digit.number (out ++ held.digits) =
    Digit.number start.digits * 10 ^ carries.length + spelled (carries.map Int64.toNatClampNeg)

theorem map_toNatClampNeg {numbers : List ℕ} (hc : ∀ carry ∈ numbers, carry ≤ 10) :
    (numbers.map Int64.ofNat).map Int64.toNatClampNeg = numbers := by
  rw [List.map_map]
  refine (List.map_congr_left fun carry hcarry => ?_).trans (List.map_id numbers)
  exact Int64.toNatClampNeg_ofNat_of_lt ((hc carry hcarry).trans_lt (by norm_num))

theorem Ready.takeAll_gives (a : Arithmetic) {h : Held} (hh : h.Ready) {numbers : List ℕ}
    (hc : ∀ carry ∈ numbers, carry ≤ 10)
    (hfit : h.nines.toInt + numbers.length ≤ Int64.maxValue.toInt) :
    ∃ w : Waiting, w.toHeld = h ∧ w.Settled [] ∧ w.nines + numbers.length < 2 ^ 63 ∧
      ∀ policy, Gives (takeAll (a.machine : Machine σ)
          ((numbers.map Int64.ofNat).map (Prod.mk policy)) h)
        (.ok (Waiting.taken (numbers.map (Prod.mk policy)) w)) := by
  obtain ⟨w, rfl, hw, hnines⟩ := hh.exists_waiting
  rw [← hnines, show Int64.maxValue.toInt = 2 ^ 63 - 1 from rfl] at hfit
  refine ⟨w, rfl, hw, by omega, fun policy => ?_⟩
  have hm : (a.machine : Machine σ).Serves (2 ^ 63) :=
    ⟨a.agreesBelow _, a.holds_eq, by norm_num, le_rfl⟩
  have hsteps : ∀ step ∈ numbers.map (Prod.mk policy), step.2 ≤ 10 := by simpa using hc
  have hgives := Waiting.takeAll_gives hm hsteps hw.predigit_le (by rw [List.length_map]; omega)
  rwa [List.map_map] at hgives ⊢

theorem spells_taken {w : Waiting} (hw : w.Settled []) {numbers : List ℕ}
    (hc : ∀ carry ∈ numbers, carry ≤ 10) (hfit : w.nines + numbers.length < 2 ^ 63) :
    w.toHeld.Spells (numbers.map Int64.ofNat)
      (w.afterAll (numbers.map (Prod.mk .resetBoth))).toHeld
      (output (Waiting.taken (numbers.map (Prod.mk .resetBoth)) w)) := by
  have hsteps : ∀ step ∈ numbers.map (Prod.mk Policy.resetBoth),
      step.1 = .resetBoth ∧ step.2 ≤ 10 := by simpa using hc
  have hafter := hw.afterAll fun step hstep => (hsteps step hstep).2
  have hnines := Waiting.nines_afterAll_le w (numbers.map (Prod.mk .resetBoth))
  have hspelled := Waiting.spelled_afterAll hw hsteps
  have hp := hafter.predigit_le
  rw [List.length_map] at hnines hspelled
  exact {
    predigit_nonneg := Word.ofNat_nonneg (by omega)
    predigit_le := by
      apply Int64.le_iff_toInt_le.2
      rw [Waiting.toHeld, Int64.toInt_ofNat_of_lt (by omega), show (8 : Word).toInt = 8 from rfl]
      omega
    nines_nonneg := Word.ofNat_nonneg (by omega)
    decimal := hafter.decimal
    number := by
      have hnumber := Waiting.number_digits hp (by omega)
        (output (Waiting.taken (numbers.map (Prod.mk .resetBoth)) w))
      have hstart := Waiting.number_digits hw.predigit_le (by omega) []
      rw [Digit.number_nil, Nat.zero_mul, Nat.zero_add, List.nil_append] at hstart
      have hplaces : (numbers.map (Prod.mk Policy.resetBoth)).map Prod.snd = numbers := by
        simp
      rw [hplaces, ← hstart, Nat.add_mul, Nat.one_mul] at hspelled
      rw [map_toNatClampNeg hc, List.length_map]
      omega }

theorem tally_taken_snoc {w : Waiting} {numbers : List ℕ} {carry : ℕ} (hc : carry ≤ 10)
    (hfit : w.nines + numbers.length + 1 < 2 ^ 63) (policy : Policy) :
    (w.afterAll ((numbers ++ [carry]).map (Prod.mk policy))).toHeld.tally
        (output (Waiting.taken ((numbers ++ [carry]).map (Prod.mk policy)) w)) =
      (w.afterAll (numbers.map (Prod.mk policy))).toHeld.tally
          (output (Waiting.taken (numbers.map (Prod.mk policy)) w)) +
        if Int64.ofNat carry = 10 ∧
          (w.afterAll (numbers.map (Prod.mk policy))).toHeld.holding = false then 2 else 1 := by
  have hten : Int64.ofNat carry = 10 ↔ Waiting.kind carry = .ten := by
    rw [show (10 : Word) = Int64.ofNat 10 from rfl, Word.ofNat_inj (by omega) (by omega),
      Waiting.kind_eq_ten_iff]
  have hnines := Waiting.nines_afterAll_le w (numbers.map (Prod.mk policy))
  have hnines' := Waiting.nines_after_le policy (w.afterAll (numbers.map (Prod.mk policy))) carry
  rw [List.length_map] at hnines
  rw [List.map_append, List.map_singleton, Waiting.afterAll_snoc, Waiting.output_snoc,
    Waiting.tally_toHeld (by omega), Waiting.tally_toHeld (by omega), Waiting.tally_after]
  simp only [hten, Waiting.toHeld]

theorem takeAll_spells (a : Arithmetic) {h : Held} (hh : h.Ready) {carries : List Word}
    (hc : ∀ carry ∈ carries, 0 ≤ carry ∧ carry ≤ 10)
    (hfit : h.nines.toInt + carries.length ≤ Int64.maxValue.toInt) :
    ∃ taken, Gives (takeAll (a.machine : Machine σ) (carries.map (Prod.mk .resetBoth)) h)
        (.ok taken) ∧
      taken.length = carries.length ∧
      (∀ k ≤ carries.length, h.Spells (carries.take k) (h.afterTaken (taken.take k))
        (output (taken.take k))) ∧
      ∀ k (hk : k < carries.length),
        (h.afterTaken (taken.take (k + 1))).tally (output (taken.take (k + 1))) =
          (h.afterTaken (taken.take k)).tally (output (taken.take k)) +
            if carries[k] = 10 ∧ (h.afterTaken (taken.take k)).holding = false then 2 else 1 := by
  obtain ⟨numbers, rfl, hnumbers⟩ := exists_carries hc
  rw [List.length_map] at hfit
  obtain ⟨w, rfl, hw, hfit, htaken⟩ := hh.takeAll_gives (σ := σ) a hnumbers hfit
  refine ⟨_, htaken .resetBoth, by simp [Waiting.length_taken], ?_, ?_⟩
  · intro k _
    rw [Waiting.take_taken, ← List.map_take, ← List.map_take, Waiting.afterTaken_taken]
    apply spells_taken hw fun carry hcarry => hnumbers carry (List.mem_of_mem_take hcarry)
    rw [List.length_take]
    omega
  · intro k hk
    rw [List.length_map] at hk
    rw [Waiting.take_taken, Waiting.take_taken, ← List.map_take, ← List.map_take,
      Waiting.afterTaken_taken, Waiting.afterTaken_taken, List.take_succ_eq_append_getElem hk,
      List.getElem_map]
    apply tally_taken_snoc (hnumbers _ (List.getElem_mem hk))
    rw [List.length_take]
    omega

theorem takeAll_spells_nine_ten_four :
    empty.Ready ∧ (∀ carry ∈ [9, 10, 4], (0 : Word) ≤ carry ∧ carry ≤ 10) ∧
      empty.nines.toInt + [9, 10, 4].length ≤ Int64.maxValue.toInt ∧
      ∃ taken, Gives (takeAll (Arithmetic.counting.machine : Machine Unit)
          ([9, 10, 4].map (Prod.mk .resetBoth)) empty) (.ok taken) ∧
        empty.Spells [9, 10, 4] (empty.afterTaken taken) (output taken) := by
  have hc : ∀ carry ∈ [9, 10, 4], (0 : Word) ≤ carry ∧ carry ≤ 10 := by
    simp only [List.forall_mem_cons]
    exact ⟨by decide, by decide, by decide, List.forall_mem_nil _⟩
  have hfit : empty.nines.toInt + [(9 : Word), 10, 4].length ≤ Int64.maxValue.toInt := by decide
  obtain ⟨taken, htaken, hlength, hspells, -⟩ := takeAll_spells .counting (.inl rfl) hc hfit
  refine ⟨.inl rfl, hc, hfit, taken, htaken, ?_⟩
  have h := hspells 3 le_rfl
  have htake : taken.take 3 = taken := List.take_of_length_le hlength.le
  rw [htake] at h
  exact h

end Held

end PiDigits
