import PiDigits.Proofs.CarryRun

/-!
The same carries under the two policies. Each carry releases as many digits under one as under the
other, and a digit differs only where a waiting digit is released that the last carry of ten has
reset under one policy and not under the other.
-/

namespace PiDigits

def latest (predigit : ℕ) (carries : List ℕ) : ℕ :=
  ((carries.filter (· ≤ 8)).getLast?).getD predigit

/-- What a waiting digit that is not reset has too much after the carries. -/
def surplus (predigit : ℕ) (carries : List ℕ) : ℕ :=
  if (carries.filter (· ≠ 9)).getLast? = some 10 then latest predigit carries else 0

theorem getLast?_filter_snoc (p : ℕ → Bool) (carries : List ℕ) (carry : ℕ) :
    ((carries ++ [carry]).filter p).getLast? =
      if p carry then some carry else (carries.filter p).getLast? := by
  rw [List.filter_append]
  by_cases h : p carry
  · rw [List.filter_cons_of_pos h, if_pos h]
    simp
  · rw [List.filter_cons_of_neg h, if_neg h]
    simp

theorem latest_snoc (predigit : ℕ) (carries : List ℕ) (carry : ℕ) :
    latest predigit (carries ++ [carry]) =
      if carry ≤ 8 then carry else latest predigit carries := by
  rw [latest, latest, getLast?_filter_snoc]
  simp only [decide_eq_true_eq]
  split <;> rfl

theorem surplus_snoc (predigit : ℕ) (carries : List ℕ) {carry : ℕ} (hc : carry ≤ 10) :
    surplus predigit (carries ++ [carry]) =
      match Waiting.kind carry with
      | .nine => surplus predigit carries
      | .ten => latest predigit carries
      | .settled => 0 := by
  rw [surplus, getLast?_filter_snoc, latest_snoc]
  rcases Waiting.carry_cases hc with rfl | rfl | hc
  · rfl
  · rfl
  · rw [Waiting.kind_settled hc, if_neg]
    rw [if_pos (by simp; omega), Option.some.injEq]
    omega

namespace Digit

def Raised (surplus : ℕ) : (digits raised : List Digit) → Prop
  | [], [] => True
  | d :: rest, e :: rest' => e.value.toNat = d.value.toNat + surplus ∧ rest' = rest
  | _, _ => False

theorem Raised.refl : ∀ digits : List Digit, Raised 0 digits digits
  | [] => trivial
  | _ :: _ => ⟨rfl, rfl⟩

theorem Raised.length_eq {surplus : ℕ} {digits raised : List Digit}
    (h : Raised surplus digits raised) : raised.length = digits.length := by
  cases digits <;> cases raised <;> simp_all [Raised]

theorem Raised.of_ofNat {surplus a : ℕ} (ha : a + surplus ≤ 9) (rest : List Digit) :
    Raised surplus (ofNat a :: rest) (ofNat (a + surplus) :: rest) := by
  refine ⟨?_, rfl⟩
  rw [value_ofNat ha, value_ofNat (by omega)]

end Digit

namespace Held

structure Taken.Strays (surplus : ℕ) (reset kept : Taken) : Prop where
  kind : kept.kind = reset.kind
  nines : kept.held.nines = reset.held.nines
  holding : kept.held.holding = reset.held.holding
  length : kept.released.length = reset.released.length
  released : Digit.Raised surplus reset.released kept.released

end Held

namespace Waiting

structure Strays (surplus : ℕ) (w w' : Waiting) : Prop where
  predigit : w'.predigit = w.predigit + surplus
  nines : w'.nines = w.nines
  holding : w'.holding = w.holding
  held : surplus ≠ 0 → w.holding = true

variable {surplus : ℕ} {w w' : Waiting}

theorem Strays.front (h : Strays surplus w w') (hp : w'.predigit ≤ 8) :
    Digit.Raised surplus w.front w'.front := by
  rw [Waiting.front, Waiting.front, h.holding]
  split
  · rw [h.predigit]
    exact .of_ofNat (by have := h.predigit; omega) _
  · trivial

theorem Strays.released (h : Strays surplus w w') (hp : w'.predigit ≤ 8) (carry : ℕ) :
    Digit.Raised surplus (w.released carry) (w'.released carry) := by
  have hpredigit := h.predigit
  rw [Waiting.released, Waiting.released, h.nines]
  cases kind carry with
  | nine => trivial
  | ten =>
    rw [hpredigit, Nat.add_right_comm]
    exact .of_ofNat (by omega) _
  | settled =>
    dsimp only
    cases hh : w.holding with
    | true =>
      rw [Waiting.front, Waiting.front, h.holding, hh, hpredigit]
      exact .of_ofNat (by omega) _
    | false =>
      have hzero : surplus = 0 := by
        by_contra hne
        rw [h.held hne] at hh
        cases hh
      rw [Waiting.front, Waiting.front, h.holding, hh, hzero]
      exact .refl _

theorem Strays.after (h : Strays surplus w w') (carry : ℕ) :
    Strays (match kind carry with
      | .nine => surplus
      | .ten => w'.predigit
      | .settled => 0) (w.after .resetBoth carry) (w'.after .keepPredigit carry) := by
  rw [Waiting.after, Waiting.after]
  cases kind carry with
  | nine => exact ⟨h.predigit, by rw [h.nines], h.holding, h.held⟩
  | ten => exact ⟨(Nat.zero_add _).symm, rfl, rfl, fun _ => rfl⟩
  | settled => exact ⟨rfl, rfl, rfl, fun _ => rfl⟩

theorem Strays.taken (h : Strays surplus w w') (hp : w'.predigit ≤ 8) (carry : ℕ) :
    Held.Taken.Strays surplus
      ⟨kind carry, (w.after .resetBoth carry).toHeld, w.released carry⟩
      ⟨kind carry, (w'.after .keepPredigit carry).toHeld, w'.released carry⟩ where
  kind := rfl
  nines := congrArg Int64.ofNat (h.after carry).nines
  holding := (h.after carry).holding
  length := (h.released hp carry).length_eq
  released := h.released hp carry

theorem predigit_after_keep (w : Waiting) {carry : ℕ} (hc : carry ≤ 10) :
    (w.after .keepPredigit carry).predigit = if carry ≤ 8 then carry else w.predigit := by
  rcases carry_cases hc with rfl | rfl | hc
  · rfl
  · rfl
  · rw [Waiting.after, kind_settled hc, if_pos hc]

theorem strays_afterAll (w : Waiting) {carries : List ℕ} (hc : ∀ carry ∈ carries, carry ≤ 10) :
    Strays (PiDigits.surplus w.predigit carries) (w.afterAll (carries.map (Prod.mk .resetBoth)))
        (w.afterAll (carries.map (Prod.mk .keepPredigit))) ∧
      (w.afterAll (carries.map (Prod.mk .keepPredigit))).predigit = latest w.predigit carries := by
  induction carries using List.reverseRecOn with
  | nil => exact ⟨⟨rfl, rfl, rfl, fun h => (h rfl).elim⟩, rfl⟩
  | append_singleton carries carry ih =>
    obtain ⟨hcarries, hcarry⟩ := List.forall_mem_append.1 hc
    obtain ⟨hstrays, hlatest⟩ := ih hcarries
    rw [List.map_append, List.map_append, List.map_singleton, List.map_singleton, afterAll_snoc,
      afterAll_snoc, predigit_after_keep _ (hcarry _ (List.mem_singleton_self _)),
      surplus_snoc _ _ (hcarry _ (List.mem_singleton_self _)), latest_snoc, ← hlatest]
    exact ⟨hstrays.after carry, rfl⟩

theorem Settled.predigit_afterAll_le (h : w.Settled []) {carries : List ℕ}
    (hc : ∀ carry ∈ carries, carry ≤ 10) (policy : Policy) :
    (w.afterAll (carries.map (Prod.mk policy))).predigit ≤ 8 :=
  (h.afterAll (by simpa using hc)).predigit_le

theorem getElem?_taken (w : Waiting) (steps : List (Policy × ℕ)) (k : ℕ) :
    (taken steps w)[k]? = steps[k]?.map fun step =>
      ⟨kind step.2, ((w.afterAll (steps.take k)).after step.1 step.2).toHeld,
        (w.afterAll (steps.take k)).released step.2⟩ := by
  induction steps generalizing w k with
  | nil => rfl
  | cons step rest ih =>
    cases k with
    | zero => rfl
    | succ k => simp [taken, afterAll, ih]

end Waiting

namespace Held

/-- The same carries taken in under the two policies. Each release differs at most in the waiting
digit, which stands first, and this by what the carries before it have left over. -/
structure Strays (start : Held) (carries : List Word) (reset kept : List Taken) : Prop where
  length_reset : reset.length = carries.length
  length_kept : kept.length = carries.length
  taken : ∀ k (t t' : Taken), reset[k]? = some t → kept[k]? = some t' →
    t.Strays (surplus start.predigit.toNatClampNeg ((carries.take k).map Int64.toNatClampNeg)) t'
  flush : ∃ last last', (start.afterTaken reset).flush [] = .ok last ∧
    (start.afterTaken kept).flush [] = .ok last' ∧
    Digit.Raised (surplus start.predigit.toNatClampNeg (carries.map Int64.toNatClampNeg)) last last'

theorem strays_taken {w : Waiting} (hw : w.Settled []) {numbers : List ℕ}
    (hc : ∀ carry ∈ numbers, carry ≤ 10) :
    w.toHeld.Strays (numbers.map Int64.ofNat)
      (Waiting.taken (numbers.map (Prod.mk .resetBoth)) w)
      (Waiting.taken (numbers.map (Prod.mk .keepPredigit)) w) where
  length_reset := by simp [Waiting.length_taken]
  length_kept := by simp [Waiting.length_taken]
  taken k t t' ht ht' := by
    rw [Waiting.getElem?_taken, List.getElem?_map] at ht ht'
    cases hk : numbers[k]? with
    | none => simp [hk] at ht
    | some carry =>
      rw [hk] at ht ht'
      cases ht
      cases ht'
      have hfront : ∀ carry ∈ numbers.take k, carry ≤ 10 := fun carry hcarry =>
        hc carry (List.mem_of_mem_take hcarry)
      rw [← List.map_take, ← List.map_take, ← List.map_take, map_toNatClampNeg hfront,
        Waiting.toNatClampNeg_predigit hw.predigit_le]
      exact (Waiting.strays_afterAll w hfront).1.taken
        (hw.predigit_afterAll_le hfront .keepPredigit) carry
  flush := by
    have hstrays := (Waiting.strays_afterAll w hc).1
    have hp := hw.predigit_afterAll_le hc .resetBoth
    have hp' := hw.predigit_afterAll_le hc .keepPredigit
    rw [Waiting.afterTaken_taken, Waiting.afterTaken_taken, map_toNatClampNeg hc,
      Waiting.toNatClampNeg_predigit hw.predigit_le]
    exact ⟨_, _, Waiting.flush_toHeld hp [], Waiting.flush_toHeld hp' [], hstrays.front hp'⟩

end Held

end PiDigits
