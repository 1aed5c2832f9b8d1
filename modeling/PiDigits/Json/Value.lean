import PiDigits.Json.Number
import PiDigits.Json.Quoted
import PiDigits.Text.Quoted

namespace PiDigits.Json

variable {α : Type}

def startsNumber (c : Char) : Bool := c = '-' || c.isDigit

/-- What comes next. Lists and objects are not read any further. -/
def found : Reader Found := do
  match ← peek? with
  | some 'n' => keyword "null".toList; return .null
  | some 't' => keyword "true".toList; return .boolean true
  | some 'f' => keyword "false".toList; return .boolean false
  | some '"' => skip; return .string (Text.quoted (← readQuoted))
  | some '[' => return .sequence
  | some '{' => return .map
  | some c => if startsNumber c then return (← number).found else malformed
  | none => malformed

def readString (expected : String) : Reader String := do
  if (← peek?) = some '"' then
    skip
    readQuoted
  else
    invalidType found expected

def readInteger (low high : Int) (expected : String) : Reader Int := do
  if (← peek?).any startsNumber then
    match ← number with
    | .real x => mismatch (.invalidType (Number.real x).found expected)
    | .natural n =>
      if n.toNat ≤ high then return n.toNat
      else mismatch (.invalidValue (.integer n.toNat) expected)
    | .negative n =>
      if low ≤ n then return n else mismatch (.invalidValue (.integer n) expected)
  else
    invalidType found expected

def readNull (expected : String) : Reader Unit := do
  if (← peek?) = some 'n' then keyword "null".toList else invalidType found expected

/-! ### Passing over values -/

inductive Enclosure
  | list
  | object
  deriving DecidableEq

def passQuoted : Reader Unit := do
  match Quoted.skip? (← get) with
  | some rest => set rest
  | none => malformed

def passScalar : Reader Unit := do
  match ← peek? with
  | some 'n' => keyword "null".toList
  | some 't' => keyword "true".toList
  | some 'f' => keyword "false".toList
  | some '"' => skip; passQuoted
  | some c => if startsNumber c then discard literal else malformed
  | none => malformed

def passKey : Reader Unit := do
  take '"'
  passQuoted
  take ':'

mutual

/-- Passes over a value and what follows it in the enclosing lists and objects, innermost first.
Every call takes a character at least, so the length of the text bounds their number. -/
def passValue : (calls : Nat) → List Enclosure → Reader Unit
  | 0, _ => malformed
  | calls + 1, around => do
    match ← peek? with
    | some '[' =>
      skip
      if (← peek?) = some ']' then
        skip
        passRest calls around
      else
        passValue calls (.list :: around)
    | some '{' =>
      skip
      if (← peek?) = some '}' then
        skip
        passRest calls around
      else
        passKey
        passValue calls (.object :: around)
    | _ =>
      passScalar
      passRest calls around

def passRest : (calls : Nat) → List Enclosure → Reader Unit
  | 0, _ => malformed
  | _ + 1, [] => return
  | calls + 1, enclosure :: around => do
    match enclosure, ← peek? with
    | .list, some ']' => skip; passRest calls around
    | .object, some '}' => skip; passRest calls around
    | .list, some ',' => skip; passValue calls (.list :: around)
    | .object, some ',' => skip; passKey; passValue calls (.object :: around)
    | _, _ => malformed

end

def pass : Reader Unit := do passValue ((← get).length + 1) []

end PiDigits.Json
