import PiDigits.Violation
import PiDigits.Word

/-!
Decimal digits. The functions that make a digit from a value, a word or a character give a decimal
digit; stored text may hold any byte, so the type itself does not promise one.
-/

namespace PiDigits

structure Digit where
  value : UInt8
  deriving DecidableEq, Repr

namespace Digit

def zero : Digit := ⟨0⟩

def nine : Digit := ⟨9⟩

def IsDecimal (d : Digit) : Prop := d.value ≤ 9

instance (d : Digit) : Decidable d.IsDecimal := inferInstanceAs (Decidable (d.value ≤ 9))

def ofValue? (value : UInt8) : Option Digit := if value ≤ 9 then some ⟨value⟩ else none

def ofWord? (w : Word) : Option Digit :=
  if 0 ≤ w ∧ w ≤ 9 then some ⟨w.toCount.toUInt8⟩ else none

def ofChar? (c : Char) : Option Digit :=
  if c.isDigit then some ⟨(c.toNat - '0'.toNat).toUInt8⟩ else none

def char (d : Digit) : Char := Char.ofNat ('0'.toNat + d.value.toNat)

def toChar (d : Digit) : Except Violation Char :=
  if '0'.toNat + d.value.toNat < UInt8.size then .ok d.char else .error .sumTooLarge

def text (d : Digit) : String := toString d.value.toNat

def compare (d e : Digit) : Ordering := Ord.compare d.value e.value

def row (digits : List Digit) : String := String.ofList (digits.map char)

end Digit

end PiDigits
