import PiDigits.Event
import PiDigits.Event.RunId
import PiDigits.Event.Timestamp
import PiDigits.Json.Record

namespace PiDigits.Event

structure Stamped where
  run : RunId
  event : Event
  time : Timestamp
  deriving DecidableEq, Repr

structure Draft where
  run? : Option RunId
  sweep? : Option Nat
  word? : Option Word
  digits? : Option String
  total? : Option Nat
  time? : Option Timestamp

namespace Draft

def empty : Draft := ⟨none, none, none, none, none, none⟩

def require {α : Type} (name : String) : Option α → Except String α
  | some a => .ok a
  | none => .error name

def readCount : Json.Reader Nat := return (← Json.readInteger 0 (UInt64.size - 1) "usize").toNat

def readWord : Json.Reader Word :=
  return Int64.ofInt (← Json.readInteger Int64.minValue.toInt Int64.maxValue.toInt "i64")

def readRun : Json.Reader RunId := do
  match RunId.ofText? (← Json.readString "a formatted UUID string") with
  | some run => return run
  | none => Json.mismatch (.unreadable "UUID parsing failed")

def readTime : Json.Reader Timestamp := do
  match Timestamp.ofText (← Json.readString "an RFC 3339 formatted date and time string") with
  | .ok time => return time
  | .error flaw => Json.mismatch (.unreadable flaw.message)

def run : Json.Field Draft where
  name := "run_id"
  isSet d := d.run?.isSome
  read d := return { d with run? := some (← readRun) }

def sweep (name : String) : Json.Field Draft where
  name
  isSet d := d.sweep?.isSome
  read d := return { d with sweep? := some (← readCount) }

def word (name : String) : Json.Field Draft where
  name
  isSet d := d.word?.isSome
  read d := return { d with word? := some (← readWord) }

def digits : Json.Field Draft where
  name := "digits"
  isSet d := d.digits?.isSome
  read d := return { d with digits? := some (← Json.readString "a string") }

def total : Json.Field Draft where
  name := "digits_emitted"
  isSet d := d.total?.isSome
  read d := return { d with total? := some (← readCount) }

def time : Json.Field Draft where
  name := "timestamp"
  isSet d := d.time?.isSome
  read d := return { d with time? := some (← readTime) }

def layout (variant : String) (fields : List (Json.Field Draft))
    (event : Draft → Except String Event) : Json.Layout Draft Stamped where
  expected := "struct variant SpigotEvent::" ++ variant
  fields := run :: fields ++ [time]
  empty := empty
  complete d := do
    let run ← require "run_id" d.run?
    let event ← event d
    return { run, event, time := ← require "timestamp" d.time? }

def sweepCompleted (d : Draft) : Except String Event :=
  return .sweepCompleted (← require "sweep" d.sweep?) (← require "carry" d.word?)

def nineBuffered (d : Draft) : Except String Event :=
  return .nineBuffered (← require "sweep" d.sweep?) (← require "pending_nines" d.word?)

def digitsEmitted (d : Draft) : Except String Event :=
  return .digitsEmitted (← require "sweep" d.sweep?) (← require "digits" d.digits?)

def finished (d : Draft) : Except String Event :=
  return .finished (← require "sweeps" d.sweep?) (← require "digits_emitted" d.total?)

def layouts : List (String × Json.Layout Draft Stamped) :=
  [("SweepCompleted", [sweep "sweep", word "carry"], sweepCompleted),
    ("NineBuffered", [sweep "sweep", word "pending_nines"], nineBuffered),
    ("DigitsEmitted", [sweep "sweep", digits], digitsEmitted),
    ("Finished", [sweep "sweeps", total], finished)].map
    fun (variant, fields, event) => (variant, layout variant fields event)

end Draft

namespace Stamped

def read : Json.Reader Stamped :=
  Json.readChoice (Draft.layouts.map Prod.fst)
    (fun _ => Json.mismatch (.invalidType .unitVariant "struct variant"))
    fun variant =>
      match Draft.layouts.lookup variant with
      | some layout => layout.read
      | none => Json.malformed

def ofText (text : String) : Except Json.ReadError Stamped := Json.readAll read text

def text (s : Stamped) : String :=
  let fields := ("run_id", Json.writeQuoted s.run.text) :: s.event.fields Json.writeQuoted ++
    [("timestamp", Json.writeQuoted s.time.text)]
  let fields := fields.map fun (name, value) => Json.writeQuoted name ++ ":" ++ value
  "\x7b" ++ Json.writeQuoted s.event.name ++ ":\x7b" ++ ",".intercalate fields ++ "\x7d\x7d"

def record (s : Stamped) : Log.Record := s.event.record s.run.text s.time.text

end Stamped

end PiDigits.Event
