import PiDigits.Spigot

namespace PiDigits

structure Settings where
  digitCount : UInt64
  arithmetic : Arithmetic
  policy : Policy
  deriving DecidableEq, Repr

namespace Settings

inductive Refusal
  | noDigits
  | tooManyDigits (digitCount : UInt64)
  deriving DecidableEq, Repr

def Refusal.message : Refusal → String
  | noDigits => "Digit count must be positive"
  | tooManyDigits n => s!"Digit count {n} is too large for the machine word"

def new (digitCount : UInt64) (arithmetic : Arithmetic) : Settings :=
  ⟨digitCount, arithmetic, default⟩

def counting (digitCount : UInt64) : Settings := new digitCount .counting

def native (digitCount : UInt64) : Settings := new digitCount .native

/-- Settings that keep the waiting digit after a carry of ten, as was once done. -/
def historical (digitCount : UInt64) : Settings := ⟨digitCount, .native, .keepPredigit⟩

def withArithmetic (s : Settings) (arithmetic : Arithmetic) : Settings := { s with arithmetic }

def withPolicy (s : Settings) (policy : Policy) : Settings := { s with policy }

def validate (s : Settings) : Except Refusal Unit :=
  if s.digitCount = 0 then .error .noDigits
  else if 10 * s.digitCount.toNat ≤ Int64.maxValue.toInt then .ok ()
  else .error (.tooManyDigits s.digitCount)

def machine (s : Settings) : Machine Unit := s.arithmetic.machine

def start (s : Settings) : Except Refusal (Except Violation (Spigot Unit)) := do
  s.validate
  return (·.withPolicy s.policy) <$> Spigot.start s.machine () s.digitCount

end Settings

end PiDigits
