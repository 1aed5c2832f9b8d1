import PiDigits.Machine

/-!
A machine whose answers are partly scripted. Each question goes to the first rule that matches it
and still has an answer; if there is none, another machine answers. That machine's own steps are
not questions to the script.
-/

namespace PiDigits

namespace Script

inductive Question
  | isPositive
  | increment
  | decrement
  | logicalNot
  | add
  | multiply
  | divide
  | modulus
  | equals
  | greaterThan
  | lessThan
  deriving DecidableEq, Repr

inductive Answer
  | always (word : Word)
  /-- One word for each time; once they are used up the rule no longer answers. -/
  | inTurn (words : List Word)
  | moved (distance : Word)
  deriving Repr

structure Rule where
  question : Question
  first? : Option Word
  second? : Option Word
  answer : Answer
  deriving Repr

inductive Reply
  | word (word : Word)
  | moved (distance : Word)
  deriving Repr

/-- A rule on a second operand never matches a question that has only one. -/
def Rule.accepts (r : Rule) (q : Question) (x : Word) (y? : Option Word) : Bool :=
  r.question = q && r.first?.all (· = x) && r.second?.all fun y => y? = some y

def Rule.reply? (r : Rule) : Option (Reply × Rule) :=
  match r.answer with
  | .always w => some (.word w, r)
  | .inTurn [] => none
  | .inTurn (w :: ws) => some (.word w, { r with answer := .inTurn ws })
  | .moved d => some (.moved d, r)

def reply? (q : Question) (x : Word) (y? : Option Word) : List Rule → Option (Reply × List Rule)
  | [] => none
  | r :: rest =>
    match if r.accepts q x y? then r.reply? else none with
    | some (reply, r) => some (reply, r :: rest)
    | none => (reply? q x y? rest).map fun (reply, rest) => (reply, r :: rest)

variable {σ : Type}

def aside {α : Type} (w : Work σ α) : Work (σ × List Rule) α := fun (memory, rules) => do
  let (a, memory) ← w memory
  return (a, memory, rules)

def ask (q : Question) (x : Word) (y? : Option Word) (other : Work σ Word) :
    Work (σ × List Rule) Word := do
  let (memory, rules) ← get
  match reply? q x y? rules with
  | some (.word w, rules) => set (memory, rules); return w
  | some (.moved d, rules) => set (memory, rules); return (← aside other) + d
  | none => aside other

end Script

open Script in
def Machine.scripted {σ : Type} (name : String) (other : Machine σ) :
    Machine (σ × List Script.Rule) where
  name
  isPositive x := do
    return 0 < (← ask .isPositive x none (Word.ofBool <$> other.isPositive x))
  increment x := ask .increment x none (other.increment x)
  decrement x := ask .decrement x none (other.decrement x)
  logicalNot x := ask .logicalNot x none (other.logicalNot x)
  add x y := ask .add x (some y) (other.add x y)
  multiply x y := ask .multiply x (some y) (other.multiply x y)
  divide x y := ask .divide x (some y) (other.divide x y)
  modulus x y := ask .modulus x (some y) (other.modulus x y)
  equals x y := ask .equals x (some y) (other.equals x y)
  greaterThan x y := ask .greaterThan x (some y) (other.greaterThan x y)
  lessThan x y := ask .lessThan x (some y) (other.lessThan x y)

end PiDigits
