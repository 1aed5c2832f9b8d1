import PiDigits.Digit
import PiDigits.Operation

namespace PiDigits

inductive Fault
  | digitOutOfRange (value : Word)
  | disagreement (operation : Operation) (lhs rhs expected actual : Word)
  deriving DecidableEq, Repr

namespace Fault

def message : Fault → String
  | digitOutOfRange value => s!"digit out of range: {value} is not in 0..=9"
  | disagreement operation lhs rhs expected actual =>
    s!"self-test failed: {operation.name}({lhs}, {rhs}) expected {expected} but got {actual}"

def detail : Fault → String
  | digitOutOfRange value => s!"DigitOutOfRange({value})"
  | disagreement operation lhs rhs expected actual =>
    "SelfTestFailure \x7b " ++
      s!"operation: {operation.label}, lhs: {lhs}, rhs: {rhs}, expected: {expected}, " ++
      s!"actual: {actual} \x7d"

end Fault

def Digit.ofWord (w : Word) : Except Fault Digit :=
  match ofWord? w with
  | some d => .ok d
  | none => .error (.digitOutOfRange w)

end PiDigits
