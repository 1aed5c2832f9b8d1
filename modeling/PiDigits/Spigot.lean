import PiDigits.Columns
import PiDigits.Event
import PiDigits.Expansion

/-!
A digit computation: sweeps over the columns give reduced carries, carries settle digits, and
digits are handed out one at a time. All of its arithmetic, the bounds of its loops included, is
done by the machine that it was started on.
-/

namespace PiDigits

structure Spigot (σ : Type) where
  machine : Machine σ
  memory : σ
  digitCount : Word
  policy : Policy
  columns : Columns
  held : Held
  nextSweep : Word
  /-- Set once the last waiting digit has been let go. -/
  flushed : Bool
  pending : List Digit
  digitsReleased : Nat
  fault? : Option Fault
  journal : Array Notice

namespace Spigot

variable {σ : Type} {α : Type}

/-- A call on a computation. After a violation the computation is of no further use, but what it
had reported still stands. -/
abbrev Action (σ α : Type) := EStateM Violation (Spigot σ) α

def columnWord (m : Machine σ) (digitCount : UInt64) : Work σ Word := do
  let product ← m.multiply 10 (Word.ofCount digitCount)
  m.increment (← m.divide product 3)

def start (machine : Machine σ) (memory : σ) (digitCount : UInt64) :
    Except Violation (Spigot σ) := do
  let (size, memory) ← columnWord machine digitCount memory
  let columns ← Columns.make size.toCount
  let expected ← Columns.count digitCount
  if size.toCount ≠ expected then
    throw (.columnCountWrong size.toCount expected)
  return {
    machine, memory, columns
    digitCount := Word.ofCount digitCount
    policy := default
    held := Held.empty
    nextSweep := 1
    flushed := false
    pending := []
    digitsReleased := 0
    fault? := none
    journal := #[.created digitCount columns.size machine.name]
  }

def withPolicy (s : Spigot σ) (policy : Policy) : Spigot σ := { s with policy }

def sweepsCompleted (s : Spigot σ) : Except Violation Nat :=
  if s.nextSweep = Int64.minValue then .error .differenceTooSmall
  else .ok (Word.toCount (s.nextSweep - 1)).toNat

def events (s : Spigot σ) : List Event := s.journal.toList.filterMap Notice.event?

def work (w : Machine σ → Work σ α) : Action σ α := fun s =>
  match w s.machine s.memory with
  | .ok (a, memory) => .ok a { s with memory }
  | .error violation => .error violation s

def report (notices : List Notice) : Action σ Unit :=
  modify fun s => { s with journal := s.journal ++ notices }

def released (sweep : Nat) (digits : List Digit) : List Notice :=
  if digits.isEmpty then [] else [.published (.digitsEmitted sweep (Digit.row digits))]

def sweepsRemain : Action σ Bool := do
  let s ← get
  work fun m => do
    let bound ← m.increment s.digitCount
    m.holds (← m.lessThan s.nextSweep bound)

def reducedCarry : Action σ Word := do
  let s ← get
  let (carry, columns) ← work fun m => s.columns.sweep m
  if let some position := columns.firstUnreduced? then
    throw (.columnNotReduced position)
  modify fun s => { s with columns }
  let (carry, columns) ← work fun m => columns.extract m carry
  modify fun s => { s with columns }
  return carry

def sweepOnce : Action σ (Except Fault (List Digit)) := do
  let s ← get
  let sweep := s.nextSweep.toCount.toNat
  let carry ← reducedCarry
  let (kind, held, digits) ← work fun m => s.held.classify m s.policy carry []
  modify fun s => { s with held }
  match kind with
  | .error fault => return .error fault
  | .ok kind =>
    let nextSweep ← work fun m => m.increment s.nextSweep
    modify fun s => { s with nextSweep, digitsReleased := s.digitsReleased + digits.length }
    report [.swept sweep carry kind, .published (.sweepCompleted sweep carry)]
    if kind = .nine then
      report [.published (.nineBuffered sweep held.nines)]
    report (released sweep digits)
    return .ok digits

def finish : Action σ (Except Fault (List Digit)) := do
  let s ← get
  match s.held.flush [] with
  | .error fault => return .error fault
  | .ok digits =>
    let total := s.digitsReleased + digits.length
    set { s with flushed := true, digitsReleased := total }
    let sweeps ← MonadExcept.ofExcept s.sweepsCompleted
    if 0 < s.held.nines then
      report [.ninesLeft s.held.nines]
    report [.ended sweeps total s.machine.name]
    report (released sweeps digits)
    report [.published (.finished sweeps total)]
    return .ok digits

def step : Action σ (Except Fault (Option (List Digit))) := do
  let s ← get
  if s.flushed then
    return .ok none
  else if ← sweepsRemain then
    return (← sweepOnce).map some
  else
    return (← finish).map some

/-- Hands out a released digit if there is one, and else makes a step to release more. The answer
is absent when the step leaves it open. A fault is kept and ends the digits. -/
def advance : Action σ (Option (Option Digit)) := do
  let s ← get
  match s.pending with
  | digit :: pending =>
    set { s with pending }
    return some (some digit)
  | [] =>
    if s.fault?.isSome then
      return some none
    else
      match ← step with
      | .error fault =>
        report [.aborted fault]
        modify fun s => { s with fault? := some fault }
        return some none
      | .ok none => return some none
      | .ok (some digits) =>
        modify fun s => { s with pending := digits }
        return none

def nextWithin : Nat → Action σ (Option Digit)
  | 0 => throw .endlessLoop
  | rounds + 1 => do
    match ← advance with
    | some answer => return answer
    | none => nextWithin rounds

def next : Action σ (Option Digit) := nextWithin Machine.roundLimit

def takeAfter : (count : Nat) → (taken : Array Digit) → Action σ (List Digit)
  | 0, taken => return taken.toList
  | count + 1, taken => do
    match ← next with
    | some digit => takeAfter count (taken.push digit)
    | none => return taken.toList

def take (count : Nat) : Action σ (List Digit) := takeAfter count #[]

def rest : Action σ (List Digit) := take Machine.roundLimit

def collect : Action σ (Except Fault Expansion) := do
  let digits ← rest
  match (← get).fault? with
  | some fault => return .error fault
  | none => return .ok ⟨digits⟩

end Spigot

end PiDigits
