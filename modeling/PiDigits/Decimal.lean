namespace PiDigits

structure Decimal where
  mantissa : Nat
  scale : Nat
  deriving DecidableEq, Repr

namespace Decimal

def mantissaLimit : Nat := 0xffffffffffffffffffffffff

def scaleLimit : Nat := 28

def make? (mantissa scale : Nat) : Option Decimal :=
  if mantissa ≤ mantissaLimit ∧ scale ≤ scaleLimit then some ⟨mantissa, scale⟩ else none

def text (d : Decimal) : String :=
  let digits := Nat.toDigits 10 d.mantissa
  let digits := List.replicate (d.scale + 1 - digits.length) '0' ++ digits
  let whole := digits.take (digits.length - d.scale)
  let fraction := digits.drop (digits.length - d.scale)
  String.ofList (if fraction.isEmpty then whole else whole ++ '.' :: fraction)

end Decimal

end PiDigits
