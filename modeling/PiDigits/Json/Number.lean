import PiDigits.Json.Reader
import PiDigits.Text.Shortest

/-!
JSON numbers. An integer of 64 bits stays one; every other number is read as a binary floating
point number, and is written as briefly as it can be told from its neighbours.
-/

namespace PiDigits.Json

/-! ### Written form of floating point numbers -/

namespace Real

def plainFrom : Int := -5

def plainTo : Int := 15

def writeExponent (exponent : Int) : List Char :=
  (if exponent < 0 then '-' else '+') :: Nat.toDigits 10 exponent.natAbs

def writeDigits (digits : List Char) (exponent : Int) : List Char :=
  if exponent < plainFrom ∨ plainTo < exponent then
    match digits with
    | [] => []
    | [d] => d :: 'e' :: writeExponent exponent
    | d :: rest => d :: '.' :: rest ++ 'e' :: writeExponent exponent
  else if exponent < 0 then
    '0' :: '.' :: List.replicate (exponent.natAbs - 1) '0' ++ digits
  else
    let places := exponent.toNat + 1
    let whole := digits.take places
    let fraction := digits.drop places
    whole ++ List.replicate (places - whole.length) '0' ++ '.' ::
      if fraction.isEmpty then ['0'] else fraction

/-- The leading bit of a mantissa, which is not stored; the exponent's eleven bits stand above it. -/
def hiddenBit : Nat := 0x10000000000000

def write (x : Float) : String :=
  let bits := x.toBits.toNat
  let biased := bits / hiddenBit % 2048
  let fraction := bits % hiddenBit
  let mantissa := if biased = 0 then fraction else hiddenBit + fraction
  let exponent : Int := (max biased 1 : Nat) - 1075
  let (digits, exponent) :=
    match Text.Shortest.numeral? mantissa exponent (fraction = 0 && 1 < biased) with
    | some n => n.normal
    | none => ([], 0)
  String.ofList ((if bits / hiddenBit / 2048 = 1 then ['-'] else []) ++ writeDigits digits exponent)

def stride : Nat := 308

def powerOfTen (n : Nat) : Float := Float.ofScientific 1 false n

def shrink : (strides : Nat) → Float → (exponent : Nat) → Float
  | 0, x, _ => x
  | strides + 1, x, exponent =>
    if exponent ≤ stride then x / powerOfTen exponent
    else if x == 0 then x
    else shrink strides (x / powerOfTen stride) (exponent - stride)

def scale? (x : Float) (exponent : Int) : Option Float :=
  if exponent < 0 then some (shrink (exponent.natAbs / stride + 1) x exponent.natAbs)
  else if exponent.toNat ≤ stride then
    let y := x * powerOfTen exponent.toNat
    if y.isInf then none else some y
  else if x == 0 then some x
  else none

end Real

/-! ### Literals -/

structure Literal where
  negative : Bool
  whole : List Char
  fraction? : Option (List Char)
  /-- Whether the exponent is negative, and its digits. -/
  exponent? : Option (Bool × List Char)
  deriving DecidableEq, Repr

def digits : Reader (List Char) := do
  let text ← get
  set (text.dropWhile Char.isDigit)
  return text.takeWhile Char.isDigit

def someDigits : Reader (List Char) := do
  let cs ← digits
  if cs.isEmpty then malformed else return cs

def oneOf? (cs : List Char) : Reader (Option Char) := do
  match (← get).head? with
  | some c => if cs.contains c then skip; return some c else return none
  | none => return none

def literal : Reader Literal := do
  let negative := (← oneOf? ['-']).isSome
  let whole ← someDigits
  if whole.head? = some '0' ∧ whole ≠ ['0'] then malformed
  else
    let fraction? ← match ← oneOf? ['.'] with
      | some _ => some <$> someDigits
      | none => pure none
    let exponent? ← match ← oneOf? ['e', 'E'] with
      | some _ => do
        let sign? ← oneOf? ['+', '-']
        pure (some (decide (sign? = some '-'), ← someDigits))
      | none => pure none
    return { negative, whole, fraction?, exponent? }

def significant (limit : Nat) : (n : Nat) → List Char → Nat × List Char
  | n, [] => (n, [])
  | n, c :: cs =>
    let longer := Nat.ofDigitChars 10 [c] n
    if longer < limit then significant limit longer cs else (n, c :: cs)

def largestExponent : Nat := 0x7fffffff

inductive Number
  | natural (n : UInt64)
  | negative (n : Int)
  | real (x : Float)

namespace Literal

/-- The first digits, as many as make an integer of 64 bits, with a power of ten for the others:
digits of the whole part that are left out count, those of the fraction do not. -/
def approximation? (l : Literal) : Option Float :=
  let (n, left) := significant UInt64.size 0 l.whole
  let fraction := l.fraction?.getD []
  let (n, unread) := significant UInt64.size n fraction
  let shift : Int := left.length - (fraction.length - unread.length)
  match l.exponent? with
  | none => Real.scale? n.toUInt64.toFloat shift
  | some (down, cs) =>
    let exponent := Nat.ofDigitChars 10 cs 0
    if largestExponent < exponent then
      if n ≠ 0 ∧ ¬ down then none else some 0
    else Real.scale? n.toUInt64.toFloat (if down then shift - exponent else shift + exponent)

def number? (l : Literal) : Option Number :=
  let n := Nat.ofDigitChars 10 l.whole 0
  if l.fraction?.isSome ∨ l.exponent?.isSome ∨ UInt64.size ≤ n then
    l.approximation?.map fun x => .real (if l.negative then -x else x)
  else if !l.negative then some (.natural n.toUInt64)
  else if 0 < n ∧ n ≤ 0x8000000000000000 then some (.negative (-n))
  else some (.real (-n.toUInt64.toFloat))

end Literal

def number : Reader Number := do
  match (← literal).number? with
  | some n => return n
  | none => malformed

def Number.found : Number → Found
  | natural n => .integer n.toNat
  | negative n => .integer n
  | real x => .real (Real.write x)

end PiDigits.Json
