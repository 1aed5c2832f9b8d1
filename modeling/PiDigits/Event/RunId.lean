/-!
The id that tells a run from all others: thirty-two digits of base sixteen. They are written in
groups, and read in groups or as one word, in braces or as a name, and in either case.
-/

namespace PiDigits.Event

structure RunId where
  digits : List Char
  deriving DecidableEq, Repr

namespace RunId

def groups : List Nat := [8, 4, 4, 4, 12]

def isDigit (c : Char) : Bool := "0123456789abcdef".toList.contains c.toLower

def readGroups? : List Nat → List Char → Option (List Char)
  | [], text => if text.isEmpty then some [] else none
  | [size], text => if text.length = size && text.all isDigit then some text else none
  | size :: sizes, text =>
    let group := text.take size
    if group.length = size && group.all isDigit then
      match text.drop size with
      | '-' :: rest => (readGroups? sizes rest).map (group ++ ·)
      | _ => none
    else none

def bare : List Char → List Char
  | '{' :: rest => if rest.getLast? = some '}' then rest.dropLast else '{' :: rest
  | 'u' :: 'r' :: 'n' :: ':' :: 'u' :: 'u' :: 'i' :: 'd' :: ':' :: rest => rest
  | text => text

def ofText? (s : String) : Option RunId :=
  let digits? := (readGroups? [32] s.toList).or (readGroups? groups (bare s.toList))
  digits?.map fun digits => ⟨digits.map Char.toLower⟩

def writeGroups : List Nat → List Char → List Char
  | [], _ => []
  | [_], digits => digits
  | size :: sizes, digits => digits.take size ++ '-' :: writeGroups sizes (digits.drop size)

def text (r : RunId) : String := String.ofList (writeGroups groups r.digits)

end RunId

end PiDigits.Event
