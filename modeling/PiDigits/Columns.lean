import PiDigits.Machine

/-!
The columns of a mixed-radix number: position `i`, counted from one, holds a multiple of a
fraction with the denominator `2 * i - 1`.
-/

namespace PiDigits

structure Columns where
  entries : Array Word
  deriving DecidableEq, Repr

namespace Columns

def initial : Word := 2

def sizeLimit : UInt64 := 0xfffffffffffffff

def count (digits : UInt64) : Except Violation UInt64 :=
  if digits.toNat * 10 < UInt64.size then .ok (10 * digits / 3 + 1) else .error .productTooLarge

def make (size : UInt64) : Except Violation Columns :=
  if size ≤ sizeLimit then .ok ⟨Array.replicate size.toNat initial⟩ else .error .arrayTooLarge

def forDigits (digits : UInt64) : Except Violation Columns := do make (← count digits)

def size (c : Columns) : Nat := c.entries.size

/-- The entry at an index counted from zero; the index is read without a sign. -/
def get (c : Columns) (index : Word) : Except Violation Word :=
  match c.entries[index.toCount.toNat]? with
  | some entry => .ok entry
  | none => .error (.indexOutOfBounds c.size.toUInt64 index.toCount)

def set (c : Columns) (index entry : Word) : Except Violation Columns :=
  if h : index.toCount.toNat < c.entries.size then
    .ok ⟨c.entries.set index.toCount.toNat entry⟩
  else .error (.indexOutOfBounds c.size.toUInt64 index.toCount)

def reducedAt (position : Nat) (entry : Word) : Bool :=
  decide (0 ≤ entry.toInt ∧ entry.toInt < 2 * position - 1)

def firstUnreducedFrom? : Nat → List Word → Option Nat
  | _, [] => none
  | position, entry :: rest =>
    if reducedAt position entry then firstUnreducedFrom? (position + 1) rest else some position

def firstUnreduced? (c : Columns) : Option Nat := firstUnreducedFrom? 1 c.entries.toList

def isReduced (c : Columns) : Bool := c.firstUnreduced?.isNone

variable {σ : Type}

/-- The column at position `i` takes in ten times its entry and the carry for its position, keeps
the remainder by its denominator and hands the quotient down. The next position comes first. -/
def round (m : Machine σ) (i carry : Word) (c : Columns) : Work σ (Word × Word × Columns) := do
  let index ← m.decrement i
  let entry ← c.get index
  let tenfold ← m.multiply 10 entry
  let carried ← m.multiply carry i
  let x ← m.add tenfold carried
  let doubled ← m.multiply 2 i
  let divisor ← m.decrement doubled
  let remainder ← m.modulus x divisor
  let c ← c.set index remainder
  return (index, ← m.divide x divisor, c)

def sweepFrom (m : Machine σ) : Nat → (i carry : Word) → Columns → Work σ (Word × Columns)
  | rounds, i, carry, c => do
    if ← m.isPositive i then
      match rounds with
      | 0 => throw .endlessLoop
      | rounds + 1 =>
        let (index, carry, c) ← round m i carry c
        sweepFrom m rounds index carry c
    else
      return (carry, c)

def sweep (m : Machine σ) (c : Columns) : Work σ (Word × Columns) :=
  sweepFrom m Machine.roundLimit (Word.ofCount c.size.toUInt64) 0 c

def extract (m : Machine σ) (carry : Word) (c : Columns) : Work σ (Word × Columns) := do
  let units ← m.modulus carry 10
  let c ← c.set 0 units
  return (← m.divide carry 10, c)

end Columns

end PiDigits
