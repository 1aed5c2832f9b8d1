import PiDigits.Machine

namespace PiDigits

inductive Operation
  | multiply
  | divide
  | modulus
  | equals
  | greaterThan
  | lessThan
  | logicalNot
  deriving DecidableEq, Repr

namespace Operation

def all : List Operation :=
  [multiply, divide, modulus, equals, greaterThan, lessThan, logicalNot]

def name : Operation → String
  | multiply => "multiply"
  | divide => "divide"
  | modulus => "modulus"
  | equals => "equals"
  | greaterThan => "greater_than"
  | lessThan => "less_than"
  | logicalNot => "logical_not"

def label : Operation → String
  | multiply => "Multiply"
  | divide => "Divide"
  | modulus => "Modulus"
  | equals => "Equals"
  | greaterThan => "GreaterThan"
  | lessThan => "LessThan"
  | logicalNot => "LogicalNot"

def expected? (lhs rhs : Word) : Operation → Option Word
  | multiply => some (lhs * rhs)
  | divide => if rhs = 0 then none else some (lhs / rhs)
  | modulus => if rhs = 0 then none else some (lhs % rhs)
  | equals => some (Word.ofBool (decide (lhs = rhs)))
  | greaterThan => some (Word.ofBool (decide (rhs < lhs)))
  | lessThan => some (Word.ofBool (decide (lhs < rhs)))
  | logicalNot => some (Word.ofBool (decide (lhs ≤ 0)))

def ask {σ : Type} (m : Machine σ) (lhs rhs : Word) : Operation → Work σ Word
  | multiply => m.multiply lhs rhs
  | divide => m.divide lhs rhs
  | modulus => m.modulus lhs rhs
  | equals => m.equals lhs rhs
  | greaterThan => m.greaterThan lhs rhs
  | lessThan => m.lessThan lhs rhs
  | logicalNot => m.logicalNot lhs

end Operation

end PiDigits
