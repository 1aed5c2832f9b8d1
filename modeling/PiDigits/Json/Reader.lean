/-!
Reading JSON text from left to right, straight into values: the first problem decides. A text that
is not JSON is malformed; a text that is JSON so far but holds something other than what is asked
for is a mismatch, and says what was found.
-/

namespace PiDigits.Json

inductive Found
  | null
  | boolean (b : Bool)
  | integer (n : Int)
  /-- A number that is no integer of 64 bits, as it is written. -/
  | real (written : String)
  | string (quoted : String)
  | sequence
  | map
  | unitVariant
  deriving DecidableEq, Repr

def Found.describe : Found → String
  | null => "null"
  | boolean b => s!"boolean `{b}`"
  | integer n => s!"integer `{n}`"
  | real written => s!"floating point `{written}`"
  | string quoted => s!"string {quoted}"
  | sequence => "sequence"
  | map => "map"
  | unitVariant => "unit variant"

inductive Mismatch
  | invalidType (found : Found) (expected : String)
  | invalidValue (found : Found) (expected : String)
  | invalidLength (length : Nat) (expected : String)
  | missingField (name : String)
  | duplicateField (name : String)
  | unknownVariant (name : String) (known : List String)
  | unreadable (reason : String)
  deriving DecidableEq, Repr

def alternatives (names : List String) : String :=
  match names.map fun name => "`" ++ name ++ "`" with
  | [a] => a
  | [a, b] => a ++ " or " ++ b
  | all => "one of " ++ ", ".intercalate all

def Mismatch.message : Mismatch → String
  | invalidType found expected => s!"invalid type: {found.describe}, expected {expected}"
  | invalidValue found expected => s!"invalid value: {found.describe}, expected {expected}"
  | invalidLength length expected => s!"invalid length {length}, expected {expected}"
  | missingField name => s!"missing field `{name}`"
  | duplicateField name => s!"duplicate field `{name}`"
  | unknownVariant name known => s!"unknown variant `{name}`, expected {alternatives known}"
  | unreadable reason => reason

inductive ReadError
  | malformed
  | mismatch (m : Mismatch)
  deriving DecidableEq, Repr

abbrev Reader (α : Type) := StateT (List Char) (Except ReadError) α

variable {α : Type}

def malformed : Reader α := throw .malformed

def mismatch (m : Mismatch) : Reader α := throw (.mismatch m)

def invalidType (found : Reader Found) (expected : String) : Reader α := do
  mismatch (.invalidType (← found) expected)

def isBlank (c : Char) : Bool := c = ' ' || c = '\n' || c = '\t' || c = '\r'

/-- The next character after blanks. It is not taken. -/
def peek? : Reader (Option Char) := do
  modify (·.dropWhile isBlank)
  return (← get).head?

def skip : Reader Unit := modify List.tail

def take (c : Char) : Reader Unit := do
  if (← peek?) = some c then skip else malformed

def keyword : List Char → Reader Unit
  | [] => return
  | c :: rest => do
    if (← get).head? = some c then
      skip
      keyword rest
    else
      malformed

def readAll (reader : Reader α) (text : String) : Except ReadError α := do
  let (a, rest) ← reader text.toList
  if rest.all isBlank then return a else throw .malformed

end PiDigits.Json
