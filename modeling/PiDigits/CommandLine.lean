import PiDigits.Direct
import PiDigits.SelfTest
import PiDigits.Settings
import PiDigits.Text.Quoted

namespace PiDigits.CommandLine

structure Outcome where
  exitCode : UInt8
  output : String
  errors : String
  deriving DecidableEq, Repr

def defaultDigits : UInt64 := 10

/-! ### The digit count -/

inductive CountError
  | empty
  | invalidDigit
  | tooLarge
  deriving DecidableEq, Repr

def CountError.message : CountError → String
  | empty => "cannot parse integer from empty string"
  | invalidDigit => "invalid digit found in string"
  | tooLarge => "number too large to fit in target type"

def readDigits : (n : Nat) → List Char → Except CountError UInt64
  | n, [] => .ok n.toUInt64
  | n, c :: rest =>
    if !c.isDigit then .error .invalidDigit
    else
      let n := 10 * n + (c.toNat - '0'.toNat)
      if n < UInt64.size then readDigits n rest else .error .tooLarge

def readCount (s : String) : Except CountError UInt64 :=
  match s.toList with
  | [] => .error .empty
  | ['+'] => .error .invalidDigit
  | '+' :: digits => readDigits 0 digits
  | digits => readDigits 0 digits

/-! ### The run -/

abbrev Session (α : Type) := ExceptT (UInt8 × String) (StateM String) α

def print (line : String) : Session Unit := modify (· ++ line ++ "\n")

def fail {α : Type} (exitCode : UInt8) (line : String) : Session α :=
  throw (exitCode, line ++ "\n")

/-- A violation ends the program at once. -/
def sound {α : Type} : Except Violation α → Session α
  | .ok a => return a
  | .error violation => fail 101 violation.message

def examine : Session Unit := do
  let (result, _) ← sound (SelfTest.run (Machine.counting (σ := Unit)) ())
  match result with
  | .ok report =>
    print s!"Self-test passed: {report.checks} checks on {report.machine} ({report.skipped} skipped)\n"
  | .error fault => fail 1 fault.message

def expansion (digitCount : UInt64) : Session Expansion := do
  match (Settings.counting digitCount).start with
  | .error refusal => fail 2 s!"invalid configuration: {refusal.message}"
  | .ok computation =>
    match Spigot.collect.run (← sound computation) with
    | .error violation _ => fail 101 violation.message
    | .ok (.error fault) _ => fail 1 s!"computation failed: {fault.message}"
    | .ok (.ok e) _ => return e

def session (digitCount : UInt64) : Session Unit := do
  print "=== Pi Spigot Example ===\n"
  examine
  let e ← expansion digitCount
  let direct ← sound (Direct.digits digitCount .resetBoth)
  print ("Emulated:  " ++ e.text)
  print ("Reference: " ++ direct)
  if e.text = direct then
    print s!"\nOutputs match ({e.length} digits)"
    match e.toDecimal? with
    | some d => print ("As decimal: " ++ d.text)
    | none => return
  else
    print "\nOutputs differ"
    throw (1, "")

def digitCount : List String → Except String UInt64
  | [] => .ok defaultDigits
  | argument :: _ =>
    match readCount argument with
    | .ok n => .ok n
    | .error e => .error s!"invalid digit count {Text.quoted argument}: {e.message}\n"

def run (arguments : List String) : Outcome :=
  match digitCount arguments with
  | .error message => ⟨2, "", message⟩
  | .ok digitCount =>
    match (session digitCount).run "" with
    | (.ok (), output) => ⟨0, output, ""⟩
    | (.error (exitCode, errors), output) => ⟨exitCode, output, errors⟩

end PiDigits.CommandLine
