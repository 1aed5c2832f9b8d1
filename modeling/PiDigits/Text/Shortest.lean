/-!
The shortest decimal that reads back as a given binary number: of all decimals nearer to it than to
its neighbours, one with the fewest digits, and of those the nearest.
-/

namespace PiDigits.Text.Shortest

/-- The rational numbers that round to a binary number, over one denominator; the ends belong to
them or not. -/
structure Interval where
  low : Nat
  value : Nat
  high : Nat
  denominator : Nat
  closed : Bool

/-- The interval of `mantissa * 2 ^ exponent`. Below a power of two the neighbour is nearer. -/
def interval (mantissa : Nat) (exponent : Int) (lowest : Bool) : Interval :=
  let scale := Nat.pow 2 exponent.toNat
  { low := (4 * mantissa - if lowest then 1 else 2) * scale
    value := 4 * mantissa * scale
    high := (4 * mantissa + 2) * scale
    denominator := 4 * Nat.pow 2 (-exponent).toNat
    closed := mantissa % 2 = 0 }

structure Numeral where
  digits : Nat
  exponent : Int
  deriving DecidableEq, Repr

namespace Interval

def scaled (i : Interval) (n : Numeral) (numerator : Nat) : Nat × Nat :=
  (n.digits * Nat.pow 10 n.exponent.toNat * i.denominator,
    numerator * Nat.pow 10 (-n.exponent).toNat)

def contains (i : Interval) (n : Numeral) : Bool :=
  let (a, low) := i.scaled n i.low
  let (b, high) := i.scaled n i.high
  if i.closed then low ≤ a && b ≤ high else low < a && b < high

def distance (i : Interval) (n : Numeral) : Nat :=
  let (a, value) := i.scaled n i.value
  (a - value) + (value - a)

def neighbours (i : Interval) (exponent : Int) : Numeral × Numeral :=
  let below := i.value * Nat.pow 10 (-exponent).toNat /
    (i.denominator * Nat.pow 10 exponent.toNat)
  (⟨below, exponent⟩, ⟨below + 1, exponent⟩)

def hit? (i : Interval) (exponent : Int) : Option Numeral :=
  let (a, b) := i.neighbours exponent
  match i.contains a, i.contains b with
  | false, false => none
  | true, false => some a
  | false, true => some b
  | true, true =>
    if i.distance a < i.distance b then some a
    else if i.distance b < i.distance a then some b
    else if a.digits % 2 = 0 then some a else some b

def search (i : Interval) : (grids : Nat) → (exponent : Int) → Option Numeral
  | 0, _ => none
  | grids + 1, exponent => i.hit? exponent <|> i.search grids (exponent - 1)

def magnitude (i : Interval) : Int :=
  let places (n : Nat) : Int := (Nat.toDigits 10 n).length
  let guess := places i.value - places i.denominator
  if i.value * Nat.pow 10 (-guess).toNat < i.denominator * Nat.pow 10 guess.toNat then guess - 1
  else guess

end Interval

/-- Seventeen digits always tell a number from its neighbours. -/
def numeral? (mantissa : Nat) (exponent : Int) (lowest : Bool) : Option Numeral :=
  let i := interval mantissa exponent lowest
  i.search 18 (i.magnitude + 1)

def Numeral.normal (n : Numeral) : List Char × Int :=
  let digits := Nat.toDigits 10 n.digits
  let kept := (digits.reverse.dropWhile (· = '0')).reverse
  (kept, if n.digits = 0 then 0 else n.exponent + digits.length - 1)

end PiDigits.Text.Shortest
