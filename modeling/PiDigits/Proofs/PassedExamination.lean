import PiDigits.SelfTest
import PiDigits.Proofs.MachineAgreement

namespace PiDigits.SelfTest

open Work

variable {σ : Type} {m : Machine σ}

def Question.AnsweredBy (q : Question) (m : Machine σ) : Prop :=
  ∀ expected ∈ q.expected?, Gives (q.operation.ask m q.lhs q.rhs) expected

theorem examine_gives {qs : List Question} (h : ∀ q ∈ qs, q.AnsweredBy m) (checks skipped : ℕ) :
    Gives (examine m qs checks skipped)
      (.ok ⟨m.name, checks + qs.countP (·.expected?.isSome),
        skipped + qs.countP (·.expected?.isNone)⟩) := by
  induction qs generalizing checks skipped with
  | nil => exact .pure _
  | cons q qs ih =>
    obtain ⟨hq, hqs⟩ := List.forall_mem_cons.mp h
    rw [examine]
    cases hexpected : q.expected? with
    | none =>
      have hrest := ih hqs checks (skipped + 1)
      rw [Nat.add_assoc, Nat.add_comm 1] at hrest
      rwa [List.countP_cons_of_neg (by simp [hexpected]),
        List.countP_cons_of_pos (by simp [hexpected])]
    | some expected =>
      have hrest := ih hqs (checks + 1) skipped
      rw [Nat.add_assoc, Nat.add_comm 1] at hrest
      refine (hq expected hexpected).bind ?_
      rwa [if_pos rfl, List.countP_cons_of_pos (by simp [hexpected]),
        List.countP_cons_of_neg (by simp [hexpected])]

def Question.Small (q : Question) : Prop :=
  q.lhs.toInt.natAbs < 2 ^ 62 ∧ q.rhs.toInt.natAbs < 2 ^ 62

instance (q : Question) : Decidable q.Small := inferInstanceAs (Decidable (_ ∧ _))

theorem Question.Small.answeredBy_counting {q : Question} (h : q.Small) :
    q.AnsweredBy (.counting : Machine σ) := by
  obtain ⟨operation, x, y⟩ := q
  obtain ⟨hx, hy⟩ : x.toInt.natAbs < 2 ^ 62 ∧ y.toInt.natAbs < 2 ^ 62 := h
  have hx' : x ≠ Int64.minValue := Word.ne_minValue_iff.mpr (by omega)
  have hy' : y ≠ Int64.minValue := Word.ne_minValue_iff.mpr (by omega)
  obtain ⟨hequals, hgreater, hless⟩ :=
    Counting.comparisons_eq_native (x := x) hy' (by omega)
  intro expected hexpected
  rw [expected?] at hexpected
  cases operation with
  | multiply =>
    cases hexpected
    rw [← Counting.multiply_eq_mul hx' hy']
    exact .pure _
  | divide =>
    obtain ⟨hne, rfl⟩ : y ≠ 0 ∧ x / y = expected := by
      simpa [Operation.expected?] using hexpected
    exact .lift (Counting.divide_eq_div hx' hne hy')
  | modulus =>
    obtain ⟨hne, rfl⟩ : y ≠ 0 ∧ x % y = expected := by
      simpa [Operation.expected?] using hexpected
    exact .lift (Counting.modulus_eq_mod hx' hne hy')
  | equals =>
    cases hexpected
    rw [← hequals]
    exact .pure _
  | greaterThan =>
    cases hexpected
    rw [← hgreater]
    exact .pure _
  | lessThan =>
    cases hexpected
    rw [← hless]
    exact .pure _
  | logicalNot =>
    cases hexpected
    have hnot : decide (x ≤ 0) = !Counting.isPositive x := by
      simp only [Counting.isPositive, ← decide_not, Int64.not_lt]
    rw [hnot]
    exact .pure _

theorem small_of_mem_questions : ∀ q ∈ questions, q.Small := by
  decide +kernel

theorem run_counting : Gives (run (.counting : Machine σ)) (.ok ⟨"Emulated", 169, 6⟩) := by
  have hrun := examine_gives (m := (Machine.counting : Machine σ))
    (fun q hq => (small_of_mem_questions q hq).answeredBy_counting) 0 0
  have hchecks : questions.countP (·.expected?.isSome) = 169 := by decide +kernel
  have hskipped : questions.countP (·.expected?.isNone) = 6 := by decide +kernel
  rwa [hchecks, hskipped] at hrun

end PiDigits.SelfTest
