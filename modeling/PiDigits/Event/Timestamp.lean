/-!
The time of an event. It is written as universal time; it may be read as the time of a clock that
is ahead of that or behind it, and with blanks between its parts.
-/

namespace PiDigits.Event

/-- A moment in universal time. The year before year one is year zero. -/
structure Timestamp where
  year : Int
  month : Nat
  day : Nat
  hour : Nat
  minute : Nat
  /-- Sixty in a leap second. -/
  second : Nat
  nanosecond : Nat
  deriving DecidableEq, Repr

namespace Timestamp

def isYear (year : Int) : Bool := -262143 ≤ year && year ≤ 262142

def daysIn (year : Int) (month : Nat) : Nat :=
  if month = 2 then
    if year % 4 = 0 ∧ (year % 100 ≠ 0 ∨ year % 400 = 0) then 29 else 28
  else if month = 4 ∨ month = 6 ∨ month = 9 ∨ month = 11 then 30
  else 31

def dayBefore (t : Timestamp) : Timestamp :=
  if 1 < t.day then { t with day := t.day - 1 }
  else if 1 < t.month then { t with month := t.month - 1, day := daysIn t.year (t.month - 1) }
  else { t with year := t.year - 1, month := 12, day := 31 }

def dayAfter (t : Timestamp) : Timestamp :=
  if t.day < daysIn t.year t.month then { t with day := t.day + 1 }
  else if t.month < 12 then { t with month := t.month + 1, day := 1 }
  else { t with year := t.year + 1, month := 1, day := 1 }

def minutesInDay : Nat := 1440

def atMinute (t : Timestamp) (minute : Nat) : Timestamp :=
  { t with hour := minute / 60, minute := minute % 60 }

/-- Sets back a clock that is so many minutes ahead, by less than a day. -/
def setBack (t : Timestamp) (minutes : Int) : Timestamp :=
  let moved := 60 * t.hour + t.minute - minutes
  let t := t.atMinute (moved % minutesInDay).toNat
  if moved < 0 then t.dayBefore else if minutesInDay ≤ moved then t.dayAfter else t

/-! ### Reading -/

inductive Flaw
  | wrongCharacter
  | outOfRange
  | cutShort
  | continued
  /-- A moment that is in the calendar for its own clock only. -/
  | impossible
  deriving DecidableEq, Repr

def Flaw.message : Flaw → String
  | wrongCharacter => "input contains invalid characters"
  | outOfRange => "input is out of range"
  | cutShort => "premature end of input"
  | continued => "trailing input"
  | impossible => "no possible date and time matching input"

abbrev Scan := StateT (List Char) (Except Flaw)

def blanks : List (Nat × Nat) := [
    (0x9, 0xd), (0x20, 0x20), (0x85, 0x85), (0xa0, 0xa0), (0x1680, 0x1680), (0x2000, 0x200a),
    (0x2028, 0x2029), (0x202f, 0x202f), (0x205f, 0x205f), (0x3000, 0x3000)]

def isBlank (c : Char) : Bool := blanks.any fun (first, last) => first ≤ c.toNat && c.toNat ≤ last

def trim : Scan Unit := modify (·.dropWhile isBlank)

def oneOf (cs : List Char) : Scan Char := do
  match ← get with
  | c :: rest => if cs.contains c then set rest; return c else throw .wrongCharacter
  | [] => throw .cutShort

def mark (c : Char) : Scan Unit := do
  trim
  let _ ← oneOf [c]

/-- At least one digit, and no more than so many. -/
def digits (most : Nat) : Scan (List Char) := do
  let text ← get
  let digits := (text.take most).takeWhile Char.isDigit
  if text.isEmpty then throw .cutShort
  else if digits.isEmpty then throw .wrongCharacter
  else
    set (text.drop digits.length)
    return digits

def number (most : Nat) : Scan Nat := return Nat.ofDigitChars 10 (← digits most) 0

def numberBetween (low high : Nat) : Scan Nat := do
  trim
  let n ← number 2
  if low ≤ n ∧ n ≤ high then return n else throw .outOfRange

def numberAfter (c : Char) (low high : Nat) : Scan Nat := do
  mark c
  numberBetween low high

def signedNumber : Scan Int := do
  let text ← get
  if text.head? = some '+' then
    set text.tail
    return Int.ofNat (← number text.length)
  else if text.head? = some '-' then
    set text.tail
    return -Int.ofNat (← number text.length)
  else
    return Int.ofNat (← number 4)

def signedYear : Scan Int := do
  trim
  let year ← signedNumber
  if Int32.minValue.toInt ≤ year ∧ year ≤ Int32.maxValue.toInt then return year
  else throw .outOfRange

/-- Nanoseconds, if there is a point; what is finer is dropped. -/
def fraction : Scan Nat := do
  let text ← get
  if text.head? = some '.' then
    set text.tail
    return Nat.ofDigitChars 10 (((← digits text.length) ++ List.replicate 9 '0').take 9) 0
  else
    return 0

/-- A single character is too short only if it takes up a single byte. -/
def twoDigits : Scan Nat := do
  match ← get with
  | c :: d :: rest =>
    if c.isDigit && d.isDigit then set rest; return Nat.ofDigitChars 10 [c, d] 0
    else throw .wrongCharacter
  | [c] => throw (if c.utf8Size = 1 then .cutShort else .wrongCharacter)
  | [] => throw .cutShort

/-- The minutes by which the clock is ahead. -/
def ahead : Scan Int := do
  let text ← get
  if (text.take 3).map Char.toUpper = ['U', 'T', 'C'] then
    set (text.drop 3)
    return 0
  else
    let sign ← oneOf ['Z', 'z', '+', '-', '−']
    if sign.toUpper = 'Z' then
      return 0
    else
      let hours ← twoDigits
      modify (·.dropWhile fun c => c = ':' || isBlank c)
      let minutes ← twoDigits
      if 60 ≤ minutes then throw .outOfRange
      let minutes := Int.ofNat (60 * hours + minutes)
      return if sign = '+' then minutes else -minutes

def ended : Scan Unit := do
  if (← get).isEmpty then return else throw .continued

/-- The moment at which a clock that is so many minutes ahead shows this time. -/
def universal (t : Timestamp) (minutes : Int) : Scan Timestamp :=
  if isYear t.year ∧ t.day ≤ daysIn t.year t.month ∧ minutes.natAbs < minutesInDay then
    if isYear (t.setBack minutes).year then return t.setBack minutes else throw .impossible
  else throw .outOfRange

def scan : Scan Timestamp := do
  let year ← signedYear
  let month ← numberAfter '-' 1 12
  let day ← numberAfter '-' 1 31
  let _ ← oneOf ['T', 't', ' ']
  let hour ← numberBetween 0 23
  let minute ← numberAfter ':' 0 59
  let second ← numberAfter ':' 0 60
  let nanosecond ← fraction
  trim
  let minutes ← ahead
  trim
  ended
  universal { year, month, day, hour, minute, second, nanosecond } minutes

def ofText (s : String) : Except Flaw Timestamp := scan.run' s.toList

/-! ### Writing -/

def pad (size n : Nat) : String :=
  let digits := Nat.toDigits 10 n
  String.ofList (List.replicate (size - digits.length) '0' ++ digits)

def yearText (year : Int) : String :=
  let digits := pad 4 year.natAbs
  if year < 0 then "-" ++ digits else if 9999 < year then "+" ++ digits else digits

def fractionText (nanosecond : Nat) : String :=
  if nanosecond = 0 then ""
  else if nanosecond % 1000000 = 0 then "." ++ pad 3 (nanosecond / 1000000)
  else if nanosecond % 1000 = 0 then "." ++ pad 6 (nanosecond / 1000)
  else "." ++ pad 9 nanosecond

def text (t : Timestamp) : String :=
  yearText t.year ++ "-" ++ pad 2 t.month ++ "-" ++ pad 2 t.day ++ "T" ++ pad 2 t.hour ++ ":" ++
    pad 2 t.minute ++ ":" ++ pad 2 t.second ++ fractionText t.nanosecond ++ "Z"

end Timestamp

end PiDigits.Event
