import PiDigits.Counting

/-!
The arithmetic that a digit computation runs on. A machine has a memory `σ`, so that it may answer
the same question differently the next time, and it need not be right.
-/

namespace PiDigits

abbrev Work (σ : Type) := StateT σ (Except Violation)

structure Machine (σ : Type) where
  name : String
  isPositive : Word → Work σ Bool
  /-- Truth values are words. Unless the machine says otherwise a positive word counts as true. -/
  holds : Word → Work σ Bool := isPositive
  increment : Word → Work σ Word
  decrement : Word → Work σ Word
  logicalNot : Word → Work σ Word
  add : Word → Word → Work σ Word
  multiply : Word → Word → Work σ Word
  divide : Word → Word → Work σ Word
  modulus : Word → Word → Work σ Word
  equals : Word → Word → Work σ Word
  greaterThan : Word → Word → Work σ Word
  lessThan : Word → Word → Work σ Word

namespace Machine

variable {σ : Type}

/-- A loop that a machine counts goes through at most this many rounds: as many as the largest
word counts. -/
def roundLimit : Nat := 0x7fffffffffffffff

def counting : Machine σ where
  name := "Emulated"
  isPositive x := pure (Counting.isPositive x)
  increment x := pure (Counting.increment x)
  decrement x := pure (Counting.decrement x)
  logicalNot x := pure (Counting.logicalNot x)
  add x y := pure (Counting.add x y)
  multiply x y := pure (Counting.multiply x y)
  divide x y := liftM (Counting.divide x y)
  modulus x y := liftM (Counting.modulus x y)
  equals x y := pure (Counting.equals x y)
  greaterThan x y := pure (Counting.greaterThan x y)
  lessThan x y := pure (Counting.lessThan x y)

def native : Machine σ where
  name := "Native"
  isPositive x := pure (decide (0 < x))
  increment x := pure (x + 1)
  decrement x := pure (x - 1)
  logicalNot x := pure (Word.ofBool (decide (x ≤ 0)))
  add x y := pure (x + y)
  multiply x y := pure (x * y)
  divide x y := if y = 0 then throw .divisionByZero else pure (x / y)
  modulus x y := if y = 0 then throw .remainderByZero else pure (x % y)
  equals x y := pure (Word.ofBool (decide (x = y)))
  greaterThan x y := pure (Word.ofBool (decide (y < x)))
  lessThan x y := pure (Word.ofBool (decide (x < y)))

end Machine

inductive Arithmetic
  | counting
  | native
  deriving DecidableEq, Repr

namespace Arithmetic

instance : Inhabited Arithmetic := ⟨counting⟩

def all : List Arithmetic := [counting, native]

def machine {σ : Type} : Arithmetic → Machine σ
  | counting => .counting
  | native => .native

def name (a : Arithmetic) : String := (a.machine (σ := Unit)).name

end Arithmetic

end PiDigits
