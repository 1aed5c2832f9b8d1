import PiDigits.Held
import PiDigits.Log
import PiDigits.Text.Quoted

namespace PiDigits

inductive Event
  | sweepCompleted (sweep : Nat) (carry : Word)
  | nineBuffered (sweep : Nat) (pendingNines : Word)
  | digitsEmitted (sweep : Nat) (digits : String)
  | finished (sweeps digitsEmitted : Nat)
  deriving DecidableEq, Repr

namespace Event

def name : Event → String
  | sweepCompleted .. => "SweepCompleted"
  | nineBuffered .. => "NineBuffered"
  | digitsEmitted .. => "DigitsEmitted"
  | finished .. => "Finished"

def fields (quote : String → String) : Event → List (String × String)
  | sweepCompleted sweep carry => [("sweep", toString sweep), ("carry", toString carry)]
  | nineBuffered sweep nines => [("sweep", toString sweep), ("pending_nines", toString nines)]
  | digitsEmitted sweep digits => [("sweep", toString sweep), ("digits", quote digits)]
  | finished sweeps digits =>
    [("sweeps", toString sweeps), ("digits_emitted", toString digits)]

def detail (e : Event) (run time : String) : String :=
  let fields := ("run_id", run) :: e.fields Text.quoted ++ [("timestamp", time)]
  let fields := fields.map fun (name, value) => name ++ ": " ++ value
  e.name ++ " \x7b " ++ ", ".intercalate fields ++ " \x7d"

def record (e : Event) (run time : String) : Log.Record :=
  ⟨.debug, "Spigot engine event: " ++ e.detail run time, []⟩

end Event

inductive Notice
  | created (digitCount : UInt64) (columns : Nat) (machine : String)
  | swept (sweep : Nat) (carry : Word) (kind : CarryKind)
  | ninesLeft (nines : Word)
  | ended (sweeps digits : Nat) (machine : String)
  | aborted (fault : Fault)
  | published (event : Event)
  deriving DecidableEq, Repr

namespace Notice

def event? : Notice → Option Event
  | published event => some event
  | _ => none

/-- The log leaves out which run it is and when; a published event has a blank for each. -/
def record : Notice → Log.Record
  | created digitCount columns machine =>
    ⟨.debug, "created spigot computation",
      [("digit_count", .number digitCount.toNat), ("columns", .number columns),
        ("backend", .text machine)]⟩
  | swept sweep carry kind =>
    ⟨.trace, "sweep completed",
      [("sweep", .number sweep), ("carry", .number carry.toInt), ("class", .text kind.name)]⟩
  | ninesLeft nines =>
    ⟨.warn, "buffered nines left unresolved at the end of the run",
      [("nines", .number nines.toInt)]⟩
  | ended sweeps digits machine =>
    ⟨.info, "spigot computation finished",
      [("sweeps", .number sweeps), ("digits", .number digits), ("backend", .text machine)]⟩
  | aborted fault => ⟨.error, "digit sequence aborted: " ++ fault.message, []⟩
  | published event => event.record "_" "_"

end Notice

end PiDigits
