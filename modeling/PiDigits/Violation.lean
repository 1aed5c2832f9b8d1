/-!
Broken preconditions. A violation ends the call that meets it; nothing of that call is kept.
-/

namespace PiDigits

inductive Violation
  | divisorNotPositive
  | divisionByZero
  | remainderByZero
  | sumTooLarge
  | differenceTooSmall
  | productTooLarge
  | indexOutOfBounds (size index : UInt64)
  /-- The array asked for has more bytes than can be addressed. -/
  | arrayTooLarge
  | columnNotReduced (position : Nat)
  | columnCountWrong (actual expected : UInt64)
  | notADigit (value : Int64)
  /-- A loop that a machine counts has gone on for more rounds than a word can count. -/
  | endlessLoop
  deriving DecidableEq, Repr

namespace Violation

def message : Violation → String
  | divisorNotPositive => "divide_positive requires a positive divisor"
  | divisionByZero => "attempt to divide by zero"
  | remainderByZero => "attempt to calculate the remainder with a divisor of zero"
  | sumTooLarge => "attempt to add with overflow"
  | differenceTooSmall => "attempt to subtract with overflow"
  | productTooLarge => "attempt to multiply with overflow"
  | indexOutOfBounds size index =>
    s!"index out of bounds: the len is {size} but the index is {index}"
  | arrayTooLarge => "capacity overflow"
  | columnNotReduced position => s!"column Some({position}) left unreduced after sweep"
  | columnCountWrong actual expected =>
    "assertion `left == right` failed: column count disagrees with the digit count\n" ++
      s!"  left: {actual}\n right: {expected}"
  | notADigit value => s!"{value} is not a digit"
  | endlessLoop => "the loop does not end"

end Violation

end PiDigits
