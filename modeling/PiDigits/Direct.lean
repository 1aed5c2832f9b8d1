import PiDigits.Columns
import PiDigits.Held

/-!
The digits of pi computed directly on integers, with no machine: the columns are a list, a number
that leaves the range of a word is a violation, and nothing is shared with the machine-run
computation but the policy.
-/

namespace PiDigits.Direct

def fit (x : Int) (otherwise : Violation) : Except Violation Int :=
  if Int64.minValue.toInt ≤ x ∧ x ≤ Int64.maxValue.toInt then .ok x else .error otherwise

/-- The carry out of a list of columns whose first is at `position`, and the columns as the sweep
leaves them. The last column comes first. -/
def sweep : (position : Nat) → List Int → Except Violation (Int × List Int)
  | _, [] => return (0, [])
  | position, entry :: rest => do
    let (carry, rest) ← sweep (position + 1) rest
    let tenfold ← fit (10 * entry) .productTooLarge
    let carried ← fit (carry * position) .productTooLarge
    let x ← fit (tenfold + carried) .sumTooLarge
    let divisor : Int := 2 * position - 1
    return (x.tdiv divisor, x.tmod divisor :: rest)

structure State where
  columns : List Int
  predigit : Int
  nines : Nat
  holding : Bool
  written : String

def start (columns : Nat) : State := ⟨List.replicate columns 2, 0, 0, false, ""⟩

def write (digit : Int) (s : String) : Except Violation String :=
  if 0 ≤ digit ∧ digit ≤ 9 then .ok (s.push (Char.ofNat ('0'.toNat + digit.toNat)))
  else .error (.notADigit (Int64.ofInt digit))

def writeNines (count : Nat) (s : String) : String := s ++ String.ofList (List.replicate count '9')

def writeZeros (count : Nat) (s : String) : String := s ++ String.ofList (List.replicate count '0')

def State.writeFront (s : State) : Except Violation String :=
  if s.holding then write s.predigit s.written else .ok s.written

def settle (policy : Policy) (carry : Int) (s : State) : Except Violation State := do
  if carry = 9 then
    return { s with nines := s.nines + 1 }
  else if carry = 10 then
    let written ← write (← fit (s.predigit + 1) .sumTooLarge) s.written
    let predigit := if policy = .resetBoth then 0 else s.predigit
    return { s with predigit, nines := 0, holding := true, written := writeZeros s.nines written }
  else
    let written ← s.writeFront
    return { s with
      predigit := carry, nines := 0, holding := true, written := writeNines s.nines written }

def step (policy : Policy) (s : State) : Except Violation State := do
  let (carry, columns) ← sweep 1 s.columns
  settle policy (carry.tdiv 10) { s with columns := columns.modifyHead fun _ => carry.tmod 10 }

def steps (policy : Policy) : Nat → State → Except Violation State
  | 0, s => return s
  | count + 1, s => do steps policy count (← step policy s)

def digits (digitCount : UInt64) (policy : Policy) : Except Violation String := do
  let columns ← Columns.count digitCount
  if Columns.sizeLimit < columns then
    throw .arrayTooLarge
  let s ← steps policy digitCount.toNat (start columns.toNat)
  s.writeFront

end PiDigits.Direct
