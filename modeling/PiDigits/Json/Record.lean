import PiDigits.Json.Value

/-!
Objects with known fields, and choices between named variants. A record may also be written as the
list of its fields, and a variant without content as its name alone.
-/

namespace PiDigits.Json

structure Field (δ : Type) where
  name : String
  isSet : δ → Bool
  read : δ → Reader δ

/-- How a record is read: its fields in order, and what they are put together to. A draft that is
not complete names the first field it lacks. -/
structure Layout (δ α : Type) where
  expected : String
  fields : List (Field δ)
  empty : δ
  complete : δ → Except String α

namespace Layout

variable {δ α : Type}

def names (l : Layout δ α) : List String := l.fields.map Field.name

def finish (l : Layout δ α) (lacking : String → Mismatch) (draft : δ) : Reader α :=
  match l.complete draft with
  | .ok a => return a
  | .error name => mismatch (lacking name)

def readElements : (first : Bool) → List (Field δ) → δ → Reader δ
  | _, [], draft => return draft
  | first, field :: fields, draft => do
    match ← peek? with
    | some ']' => return draft
    | some c =>
      if first then
        readElements false fields (← field.read draft)
      else if c = ',' then
        skip
        if (← peek?) = some ']' then malformed
        else readElements false fields (← field.read draft)
      else
        malformed
    | none => malformed

def readEntries (l : Layout δ α) : (entries : Nat) → (first : Bool) → δ → Reader δ
  | 0, _, _ => malformed
  | entries + 1, first, draft => do
    if (← peek?) = some '}' then
      return draft
    else
      if first then pure () else take ','
      take '"'
      let name ← readQuoted
      match l.fields.find? (·.name = name) with
      | none =>
        take ':'
        pass
        l.readEntries entries false draft
      | some field =>
        if field.isSet draft then
          mismatch (.duplicateField name)
        else
          take ':'
          l.readEntries entries false (← field.read draft)

def lengthUpTo (l : Layout δ α) (name : String) : Mismatch :=
  .invalidLength (l.names.idxOf name) s!"{l.expected} with {l.fields.length} elements"

def read (l : Layout δ α) : Reader α := do
  match ← peek? with
  | some '[' =>
    skip
    let a ← l.finish l.lengthUpTo (← readElements true l.fields l.empty)
    take ']'
    return a
  | some '{' =>
    skip
    let a ← l.finish .missingField (← l.readEntries ((← get).length + 1) true l.empty)
    take '}'
    return a
  | _ => invalidType found l.expected

end Layout

section Choice

variable {α : Type}

/-- A variant with content is an object of one entry. A key that is no string makes the text
malformed, whatever else it is. -/
def readChoice (names : List String) (alone content : String → Reader α) : Reader α := do
  let known (name : String) : Reader String :=
    if names.contains name then return name else mismatch (.unknownVariant name names)
  match ← peek? with
  | some '"' =>
    skip
    alone (← known (← readQuoted))
  | some '{' =>
    skip
    take '"'
    let name ← known (← readQuoted)
    take ':'
    let a ← content name
    take '}'
    return a
  | _ => malformed

/-- A variant that has no content; one may be written, if it is null. -/
def readName (all : List α) (name : α → String) : Reader α :=
  let find (s : String) : Reader α :=
    match all.find? (name · = s) with
    | some a => return a
    | none => malformed
  readChoice (all.map name) find fun s => do
    readNull "unit"
    find s

end Choice

end PiDigits.Json
