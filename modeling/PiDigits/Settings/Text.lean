import PiDigits.Json.Record
import PiDigits.Settings

namespace PiDigits

def Arithmetic.read : Json.Reader Arithmetic := Json.readName Arithmetic.all Arithmetic.name

def Policy.read : Json.Reader Policy := Json.readName Policy.all Policy.name

namespace Settings

def readCount : Json.Reader UInt64 :=
  return (← Json.readInteger 0 (UInt64.size - 1) "usize").toNat.toUInt64

structure Draft where
  digitCount? : Option UInt64
  arithmetic? : Option Arithmetic
  policy? : Option Policy

def Draft.complete (d : Draft) : Except String Settings :=
  match d.digitCount? with
  | some n => .ok ⟨n, d.arithmetic?.getD default, d.policy?.getD default⟩
  | none => .error "digit_count"

def layout : Json.Layout Draft Settings where
  expected := "struct SpigotConfig"
  fields := [
    { name := "digit_count"
      isSet d := d.digitCount?.isSome
      read d := return { d with digitCount? := some (← readCount) } },
    { name := "arithmetic"
      isSet d := d.arithmetic?.isSome
      read d := return { d with arithmetic? := some (← Arithmetic.read) } },
    { name := "carry_reset"
      isSet d := d.policy?.isSome
      read d := return { d with policy? := some (← Policy.read) } }]
  empty := ⟨none, none, none⟩
  complete := Draft.complete

inductive TextError
  | unread (error : Json.ReadError)
  | refused (refusal : Refusal)
  deriving DecidableEq, Repr

def ofText (text : String) : Except TextError Settings := do
  let s ← (Json.readAll layout.read text).mapError .unread
  s.validate.mapError .refused
  return s

def text (s : Settings) : String :=
  "\x7b\"digit_count\":" ++ toString s.digitCount.toNat ++
    ",\"arithmetic\":" ++ Json.writeQuoted s.arithmetic.name ++
    ",\"carry_reset\":" ++ Json.writeQuoted s.policy.name ++ "\x7d"

end Settings

end PiDigits
