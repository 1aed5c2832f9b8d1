import PiDigits.Decimal
import PiDigits.Digit

namespace PiDigits

structure Expansion where
  digits : List Digit
  deriving DecidableEq, Repr

namespace Expansion

def ofText (s : String) : Expansion := ⟨s.toList.filterMap Digit.ofChar?⟩

def text (e : Expansion) : String := String.join (e.digits.map Digit.text)

def length (e : Expansion) : Nat := e.digits.length

def sharedLength : List Digit → List Digit → Nat
  | d :: ds, e :: es => if d = e then sharedLength ds es + 1 else 0
  | _, _ => 0

def commonPrefixLength (a b : Expansion) : Nat := sharedLength a.digits b.digits

def startsWithin (a b : Expansion) : Bool :=
  a.length ≤ b.length && a.commonPrefixLength b = a.length

/-- The first digits that a decimal number has room for, the first of them before the point. -/
def toDecimal? (e : Expansion) : Option Decimal :=
  match e.digits.take (Decimal.scaleLimit + 1) with
  | [] => none
  | whole :: fraction =>
    Decimal.make? (fraction.foldl (fun n d => n * 10 + d.value.toNat) whole.value.toNat)
      fraction.length

end Expansion

end PiDigits
