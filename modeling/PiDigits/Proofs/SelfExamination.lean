import PiDigits.Machine.Scripted
import PiDigits.SelfTest
import Mathlib.Data.List.Basic

namespace PiDigits

abbrev Asked := Script.Question × List Word

structure Answers where
  name : String
  isPositive : Word → Bool
  increment : Word → Word
  decrement : Word → Word
  logicalNot : Word → Word
  add : Word → Word → Word
  multiply : Word → Word → Word
  divide : Word → Word → Word
  modulus : Word → Word → Word
  equals : Word → Word → Word
  greaterThan : Word → Word → Word
  lessThan : Word → Word → Word

namespace Answers

def reply {α : Type} (call : Asked) (answer : α) : Work (List Asked) α :=
  fun asked => .ok (answer, asked ++ [call])

/-- The machine with these answers. All that it remembers is what it was asked, oldest first. -/
def machine (f : Answers) : Machine (List Asked) where
  name := f.name
  isPositive x := reply (.isPositive, [x]) (f.isPositive x)
  increment x := reply (.increment, [x]) (f.increment x)
  decrement x := reply (.decrement, [x]) (f.decrement x)
  logicalNot x := reply (.logicalNot, [x]) (f.logicalNot x)
  add x y := reply (.add, [x, y]) (f.add x y)
  multiply x y := reply (.multiply, [x, y]) (f.multiply x y)
  divide x y := reply (.divide, [x, y]) (f.divide x y)
  modulus x y := reply (.modulus, [x, y]) (f.modulus x y)
  equals x y := reply (.equals, [x, y]) (f.equals x y)
  greaterThan x y := reply (.greaterThan, [x, y]) (f.greaterThan x y)
  lessThan x y := reply (.lessThan, [x, y]) (f.lessThan x y)

end Answers

namespace SelfTest

namespace Question

def native? (q : Question) : Option Word :=
  ((q.operation.ask .native q.lhs q.rhs).run' ()).toOption

theorem native?_eq (q : Question) : q.native? = q.expected? := by
  obtain ⟨operation, lhs, rhs⟩ := q
  cases operation with
  | divide | modulus =>
    by_cases hr : rhs = 0
    · subst hr
      rfl
    · simp only [native?, expected?, Operation.ask, Operation.expected?, Machine.native, if_neg hr]
      rfl
  | multiply | equals | greaterThan | lessThan | logicalNot => rfl

def call (q : Question) : Asked :=
  match q.operation with
  | .multiply => (.multiply, [q.lhs, q.rhs])
  | .divide => (.divide, [q.lhs, q.rhs])
  | .modulus => (.modulus, [q.lhs, q.rhs])
  | .equals => (.equals, [q.lhs, q.rhs])
  | .greaterThan => (.greaterThan, [q.lhs, q.rhs])
  | .lessThan => (.lessThan, [q.lhs, q.rhs])
  | .logicalNot => (.logicalNot, [q.lhs])

theorem ne_byZero {q : Question} (h : q.native?.isSome = true) (x : Word) :
    q.call ≠ (.divide, [x, 0]) ∧ q.call ≠ (.modulus, [x, 0]) := by
  obtain ⟨operation, lhs, rhs⟩ := q
  rw [native?_eq] at h
  constructor
  · intro hcall
    cases operation <;> cases hcall
    cases h
  · intro hcall
    cases operation <;> cases hcall
    cases h

end Question

end SelfTest

namespace Answers

def answer (f : Answers) (q : SelfTest.Question) : Word :=
  match q.operation with
  | .multiply => f.multiply q.lhs q.rhs
  | .divide => f.divide q.lhs q.rhs
  | .modulus => f.modulus q.lhs q.rhs
  | .equals => f.equals q.lhs q.rhs
  | .greaterThan => f.greaterThan q.lhs q.rhs
  | .lessThan => f.lessThan q.lhs q.rhs
  | .logicalNot => f.logicalNot q.lhs

theorem ask_machine (f : Answers) (q : SelfTest.Question) (asked : List Asked) :
    q.operation.ask f.machine q.lhs q.rhs asked = .ok (f.answer q, asked ++ [q.call]) := by
  obtain ⟨operation, lhs, rhs⟩ := q
  cases operation <;> rfl

def Agrees (f : Answers) (q : SelfTest.Question) : Prop :=
  ∀ expected ∈ q.native?, f.answer q = expected

instance (f : Answers) (q : SelfTest.Question) : Decidable (f.Agrees q) :=
  inferInstanceAs (Decidable (∀ expected ∈ q.native?, f.answer q = expected))

def native : Answers where
  name := "Native"
  isPositive x := decide (0 < x)
  increment x := x + 1
  decrement x := x - 1
  logicalNot x := Word.ofBool (decide (x ≤ 0))
  add x y := x + y
  multiply x y := x * y
  divide x y := x / y
  modulus x y := x % y
  equals x y := Word.ofBool (decide (x = y))
  greaterThan x y := Word.ofBool (decide (y < x))
  lessThan x y := Word.ofBool (decide (x < y))

end Answers

namespace SelfTest

def calls (qs : List Question) : List Asked := (qs.filter (·.native?.isSome)).map (·.call)

theorem byZero_not_mem_calls (qs : List Question) (x : Word) :
    (.divide, [x, 0]) ∉ calls qs ∧ (.modulus, [x, 0]) ∉ calls qs := by
  have hne : ∀ call ∈ calls qs, call ≠ (.divide, [x, 0]) ∧ call ≠ (.modulus, [x, 0]) := by
    intro call hcall
    obtain ⟨q, hq, rfl⟩ := List.mem_map.mp hcall
    exact Question.ne_byZero (List.mem_filter.mp hq).2 x
  exact ⟨fun h => (hne _ h).1 rfl, fun h => (hne _ h).2 rfl⟩

theorem calls_cons_of_none {q : Question} (h : q.native? = none) (qs : List Question) :
    calls (q :: qs) = calls qs := by
  rw [calls, List.filter_cons_of_neg (by simp [h]), calls]

theorem calls_cons_of_some {q : Question} {expected : Word} (h : q.native? = some expected)
    (qs : List Question) : calls (q :: qs) = q.call :: calls qs := by
  rw [calls, List.filter_cons_of_pos (by simp [h]), List.map_cons, calls]

theorem calls_append (front back : List Question) :
    calls (front ++ back) = calls front ++ calls back := by
  rw [calls, List.filter_append, List.map_append, calls, calls]

theorem forall_mem_questions (P : Question → Prop) :
    (∀ q ∈ questions, P q) ↔
      ∀ operation ∈ Operation.all, ∀ pair ∈ table, P ⟨operation, pair.1, pair.2⟩ := by
  simp only [questions, List.forall_mem_flatMap, List.forall_mem_map]

theorem length_questions : questions.length = Operation.all.length * table.length := by
  rw [questions, List.length_flatMap]
  simp only [List.length_map, List.map_const', List.sum_replicate_nat]

theorem countP_isSome_add_isNone (qs : List Question) :
    qs.countP (·.native?.isSome) + qs.countP (·.native?.isNone) = qs.length := by
  rw [List.length_eq_countP_add_countP (·.native?.isSome)]
  congr 1
  apply List.countP_congr
  simp

variable {f : Answers} {q : Question}

theorem examine_of_none {σ : Type} (m : Machine σ) (h : q.native? = none) (rest : List Question)
    (checks skipped : ℕ) :
    examine m (q :: rest) checks skipped = examine m rest checks (skipped + 1) := by
  rw [examine, ← Question.native?_eq, h]

theorem examine_of_some {expected : Word} (h : q.native? = some expected) (rest : List Question)
    (checks skipped : ℕ) (asked : List Asked) :
    examine f.machine (q :: rest) checks skipped asked =
      if f.answer q = expected then
        examine f.machine rest (checks + 1) skipped (asked ++ [q.call])
      else
        .ok (.error (.disagreement q.operation q.lhs q.rhs expected (f.answer q)),
          asked ++ [q.call]) := by
  rw [examine, ← Question.native?_eq, h]
  simp only [bind, StateT.bind, f.ask_machine, Except.bind]
  split <;> rfl

theorem examine_append {front : List Question} (h : ∀ q ∈ front, f.Agrees q)
    (rest : List Question) (checks skipped : ℕ) (asked : List Asked) :
    examine f.machine (front ++ rest) checks skipped asked =
      examine f.machine rest (checks + front.countP (·.native?.isSome))
        (skipped + front.countP (·.native?.isNone)) (asked ++ calls front) := by
  -- each right answer makes one round, which counts one question and leaves the rest to examine
  induction front generalizing checks skipped asked with
  | nil => simp [calls]
  | cons q front ih =>
    obtain ⟨hq, hfront⟩ := List.forall_mem_cons.mp h
    cases hnative : q.native? with
    | none =>
      rw [List.cons_append, examine_of_none _ hnative, ih hfront, calls_cons_of_none hnative,
        List.countP_cons_of_neg (by simp [hnative]), List.countP_cons_of_pos (by simp [hnative]),
        Nat.add_assoc, Nat.add_comm 1]
    | some expected =>
      rw [List.cons_append, examine_of_some hnative, if_pos (hq expected hnative), ih hfront,
        calls_cons_of_some hnative, List.countP_cons_of_pos (by simp [hnative]),
        List.countP_cons_of_neg (by simp [hnative]), List.append_assoc, List.singleton_append,
        Nat.add_assoc, Nat.add_comm 1]

theorem examine_of_agrees {qs : List Question} (h : ∀ q ∈ qs, f.Agrees q) :
    examine f.machine qs 0 0 [] =
      .ok (.ok ⟨f.name, qs.countP (·.native?.isSome), qs.countP (·.native?.isNone)⟩, calls qs) := by
  have hrun := examine_append h [] 0 0 []
  simp only [List.append_nil, Nat.zero_add, List.nil_append] at hrun
  exact hrun

theorem examine_of_wrong {front : List Question} {expected : Word}
    (hfront : ∀ p ∈ front, f.Agrees p) (hexpected : q.native? = some expected)
    (hwrong : f.answer q ≠ expected) (rest : List Question) :
    examine f.machine (front ++ q :: rest) 0 0 [] =
      .ok (.error (.disagreement q.operation q.lhs q.rhs expected (f.answer q)),
        calls (front ++ [q])) := by
  rw [examine_append hfront, examine_of_some hexpected, if_neg hwrong, List.nil_append, calls_append,
    calls_cons_of_some hexpected]
  rfl

theorem exists_first_wrong {qs : List Question} (h : ¬ ∀ q ∈ qs, f.Agrees q) :
    ∃ front q rest expected, qs = front ++ q :: rest ∧ (∀ p ∈ front, f.Agrees p) ∧
      q.native? = some expected ∧ f.answer q ≠ expected := by
  cases hfind : qs.find? (¬ f.Agrees ·) with
  | none =>
    refine absurd ?_ h
    simpa using List.find?_eq_none.mp hfind
  | some q =>
    obtain ⟨hq, front, rest, hsplit, hfront⟩ := List.find?_eq_some_iff_append.mp hfind
    obtain ⟨expected, hwrong⟩ := not_forall.mp (of_decide_eq_true hq)
    obtain ⟨hexpected, hwrong⟩ := Classical.not_imp.mp hwrong
    exact ⟨front, q, rest, expected, hsplit, by simpa using hfront, hexpected, hwrong⟩

/-- Any machine without a memory is examined to the end: up to its first wrong answer, or through
all of the questions that have a right one. -/
theorem run_first_disagreement (f : Answers) :
    ∃ verdict asked, run f.machine [] = .ok (verdict, asked) ∧
      (∀ x, (.divide, [x, 0]) ∉ asked ∧ (.modulus, [x, 0]) ∉ asked) ∧
      ((∃ report, verdict = .ok report) ↔
        ∀ operation ∈ Operation.all, ∀ pair ∈ table, f.Agrees ⟨operation, pair.1, pair.2⟩) ∧
      (∀ report, verdict = .ok report →
        report.machine = f.name ∧
        report.checks + report.skipped = Operation.all.length * table.length ∧
        report.skipped = questions.countP (·.native?.isNone) ∧ asked = calls questions) ∧
      ∀ fault, verdict = .error fault →
        ∃ front q rest expected, questions = front ++ q :: rest ∧ (∀ p ∈ front, f.Agrees p) ∧
          q.native? = some expected ∧ f.answer q ≠ expected ∧
          fault = .disagreement q.operation q.lhs q.rhs expected (f.answer q) ∧
          asked = calls (front ++ [q]) := by
  rw [← forall_mem_questions (f.Agrees ·)]
  by_cases hall : ∀ q ∈ questions, f.Agrees q
  · refine ⟨_, _, examine_of_agrees hall, byZero_not_mem_calls _, ?_, ?_, ?_⟩
    · exact ⟨fun _ => hall, fun _ => ⟨_, rfl⟩⟩
    · intro report hreport
      cases hreport
      dsimp only
      exact ⟨rfl, (countP_isSome_add_isNone questions).trans length_questions, rfl, rfl⟩
    · intro fault hfault
      cases hfault
  · obtain ⟨front, q, rest, expected, hsplit, hfront, hexpected, hwrong⟩ := exists_first_wrong hall
    have hrun := examine_of_wrong hfront hexpected hwrong rest
    rw [← hsplit] at hrun
    refine ⟨_, _, hrun, byZero_not_mem_calls _, ?_, ?_, ?_⟩
    · constructor
      · rintro ⟨report, hreport⟩
        cases hreport
      · exact fun h => absurd h hall
    · intro report hreport
      cases hreport
    · intro fault hfault
      cases hfault
      exact ⟨front, q, rest, expected, hsplit, hfront, hexpected, hwrong, rfl, rfl⟩

example :
    (run Answers.native.machine []).map Prod.fst = .ok (.ok ⟨"Native", 169, 6⟩) := by
  decide +kernel

-- a quotient that is rounded down: one fifth of minus one is minus one
example :
    (run { Answers.native with divide x y := .ofInt (x.toInt / y.toInt) }.machine []).map Prod.fst =
      .ok (.error (.disagreement .divide (-1) 5 0 (-1))) := by
  decide +kernel

end SelfTest

end PiDigits
