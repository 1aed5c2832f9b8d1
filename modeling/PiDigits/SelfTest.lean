import PiDigits.Fault
import PiDigits.Log

namespace PiDigits.SelfTest

def table : List (Word × Word) :=
  [(0, 0), (0, 1), (0, -1), (1, 0), (-1, 0),
    (1, 5), (1, -5), (-1, 5), (-1, -5),
    (2, 4), (4, 2), (-5, -3), (-3, -5), (-9, 4), (4, -9), (-4, 9), (9, -4),
    (-3, 3), (3, -3), (-3, -3), (3, 3),
    (-1, 1), (1, -1), (-1, -1), (1, 1)]

structure Question where
  operation : Operation
  lhs : Word
  rhs : Word
  deriving DecidableEq, Repr

def Question.expected? (q : Question) : Option Word := q.operation.expected? q.lhs q.rhs

def questions : List Question :=
  Operation.all.flatMap fun operation => table.map fun (lhs, rhs) => ⟨operation, lhs, rhs⟩

structure Report where
  machine : String
  checks : Nat
  skipped : Nat
  deriving DecidableEq, Repr

variable {σ : Type}

def examine (m : Machine σ) : List Question → (checks skipped : Nat) → Work σ (Except Fault Report)
  | [], checks, skipped => return .ok ⟨m.name, checks, skipped⟩
  | q :: rest, checks, skipped => do
    match q.expected? with
    | none => examine m rest checks (skipped + 1)
    | some expected =>
      let actual ← q.operation.ask m q.lhs q.rhs
      if actual = expected then
        examine m rest (checks + 1) skipped
      else
        return .error (.disagreement q.operation q.lhs q.rhs expected actual)

def run (m : Machine σ) : Work σ (Except Fault Report) := examine m questions 0 0

def record (machine : String) : Except Fault Report → Log.Record
  | .error fault => ⟨.error, fault.message, [("backend", .text machine)]⟩
  | .ok report =>
    ⟨.debug, "arithmetic self-test passed",
      [("backend", .text machine), ("checks", .number report.checks),
        ("skipped", .number report.skipped)]⟩

end PiDigits.SelfTest
