import PiDigits.Fault

/-!
Digits that are held back. A settled digit waits until the next carry shows whether it is one too
small, and nines after it wait with it, since a carry of ten turns them all into zeros.
-/

namespace PiDigits

/-- What becomes of the waiting digit after a carry of ten. -/
inductive Policy
  | resetBoth
  /-- The digit stays as it was, already released one higher. -/
  | keepPredigit
  deriving DecidableEq, Repr

namespace Policy

instance : Inhabited Policy := ⟨resetBoth⟩

def all : List Policy := [resetBoth, keepPredigit]

def name : Policy → String
  | resetBoth => "ResetBoth"
  | keepPredigit => "KeepPredigit"

end Policy

inductive CarryKind
  | nine
  | ten
  | settled
  deriving DecidableEq, Repr

def CarryKind.name : CarryKind → String
  | nine => "BufferNine"
  | ten => "CarryOverflow"
  | settled => "Settle"

structure Held where
  predigit : Word
  nines : Word
  /-- False while the predigit is a mere placeholder. -/
  holding : Bool
  deriving DecidableEq, Repr

namespace Held

def empty : Held := ⟨0, 0, false⟩

instance : Inhabited Held := ⟨empty⟩

def pending (predigit nines : Word) : Held := ⟨predigit, nines, true⟩

def front (h : Held) : Except Fault (List Digit) :=
  if h.holding then return [← Digit.ofWord h.predigit] else return []

/-- Lets go of the waiting digit at the end. Nines after it stay unresolved. -/
def flush (h : Held) (out : List Digit) : Except Fault (List Digit) := return out ++ (← h.front)

variable {σ : Type}

def countdown (m : Machine σ) : Nat → Word → (done : Nat) → Work σ Nat
  | rounds, count, done => do
    if ← m.isPositive count then
      match rounds with
      | 0 => throw .endlessLoop
      | rounds + 1 => countdown m rounds (← m.decrement count) (done + 1)
    else
      return done

def run (m : Machine σ) (digit : Digit) (count : Word) : Work σ (List Digit) :=
  return List.replicate (← countdown m Machine.roundLimit count 0) digit

/-- Takes in a reduced carry and puts the digits that it settles at the end of `out`. A carry or a
waiting digit out of range changes nothing. -/
def classify (m : Machine σ) (policy : Policy) (carry : Word) (h : Held) (out : List Digit) :
    Work σ (Except Fault CarryKind × Held × List Digit) := do
  if ← m.holds (← m.equals carry 9) then
    return (.ok .nine, { h with nines := ← m.increment h.nines }, out)
  else if ← m.holds (← m.equals carry 10) then
    match Digit.ofWord (← m.increment h.predigit) with
    | .error fault => return (.error fault, h, out)
    | .ok raised =>
      let zeros ← run m .zero h.nines
      let predigit := if policy = .resetBoth then 0 else h.predigit
      return (.ok .ten, ⟨predigit, 0, true⟩, out ++ raised :: zeros)
  else
    match Digit.ofWord carry with
    | .error fault => return (.error fault, h, out)
    | .ok _ =>
      match h.front with
      | .error fault => return (.error fault, h, out)
      | .ok front =>
        if ← m.holds (← m.greaterThan h.nines 0) then
          let nines ← run m .nine h.nines
          return (.ok .settled, ⟨carry, 0, true⟩, out ++ front ++ nines)
        else
          return (.ok .settled, ⟨carry, h.nines, true⟩, out ++ front)

end Held

end PiDigits
