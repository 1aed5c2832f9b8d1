import PiDigits.Json.Reader

namespace PiDigits.Json

namespace Quoted

def hexValue? (c : Char) : Option Nat :=
  if c.isDigit then some (c.toNat - '0'.toNat)
  else if 'a' ≤ c ∧ c ≤ 'f' then some (c.toNat - 'a'.toNat + 10)
  else if 'A' ≤ c ∧ c ≤ 'F' then some (c.toNat - 'A'.toNat + 10)
  else none

def unit? (a b c d : Char) : Option Nat := do
  return (((← hexValue? a) * 16 + (← hexValue? b)) * 16 + (← hexValue? c)) * 16 + (← hexValue? d)

def isLeading (unit : Nat) : Bool := 0xD800 ≤ unit && unit ≤ 0xDBFF

def isTrailing (unit : Nat) : Bool := 0xDC00 ≤ unit && unit ≤ 0xDFFF

def join (leading trailing : Nat) : Char :=
  Char.ofNat (0x10000 + (leading - 0xD800) * 0x400 + (trailing - 0xDC00))

def escaped? : Char → Option Char
  | '"' => some '"'
  | '\\' => some '\\'
  | '/' => some '/'
  | 'b' => some '\x08'
  | 'f' => some '\x0c'
  | 'n' => some '\n'
  | 'r' => some '\r'
  | 't' => some '\t'
  | _ => none

def isControl (c : Char) : Bool := c < ' '

/-- The characters up to the closing quote, last first before those already read, and the text
after it. Halves of a character must come in pairs. -/
def read? : List Char → List Char → Option (List Char × List Char)
  | _, [] => none
  | done, '"' :: rest => some (done.reverse, rest)
  | done, '\\' :: 'u' :: a :: b :: c :: d :: rest =>
    match unit? a b c d with
    | none => none
    | some unit =>
      if isTrailing unit then none
      else if isLeading unit then
        match rest with
        | '\\' :: 'u' :: a :: b :: c :: d :: rest =>
          match (unit? a b c d).filter isTrailing with
          | some trailing => read? (join unit trailing :: done) rest
          | none => none
        | _ => none
      else read? (Char.ofNat unit :: done) rest
  | done, '\\' :: c :: rest =>
    match escaped? c with
    | some c => read? (c :: done) rest
    | none => none
  | done, c :: rest => if isControl c then none else read? (c :: done) rest

/-- The text after the closing quote. Escapes have to be well-formed, halves need no partner. -/
def skip? : List Char → Option (List Char)
  | [] => none
  | '"' :: rest => some rest
  | '\\' :: 'u' :: a :: b :: c :: d :: rest => if (unit? a b c d).isSome then skip? rest else none
  | '\\' :: c :: rest => if (escaped? c).isSome then skip? rest else none
  | c :: rest => if isControl c then none else skip? rest

def escape (c : Char) : List Char :=
  match c with
  | '"' => ['\\', '"']
  | '\\' => ['\\', '\\']
  | '\x08' => ['\\', 'b']
  | '\x0c' => ['\\', 'f']
  | '\n' => ['\\', 'n']
  | '\r' => ['\\', 'r']
  | '\t' => ['\\', 't']
  | c =>
    if isControl c then
      let digits := Nat.toDigits 16 c.toNat
      '\\' :: 'u' :: List.replicate (4 - digits.length) '0' ++ digits
    else [c]

end Quoted

def readQuoted : Reader String := do
  match Quoted.read? [] (← get) with
  | some (s, rest) => set rest; return String.ofList s
  | none => malformed

def writeQuoted (s : String) : String :=
  String.ofList ('"' :: s.toList.flatMap Quoted.escape ++ ['"'])

end PiDigits.Json
