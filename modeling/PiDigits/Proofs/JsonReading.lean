import Mathlib.Data.List.TakeWhile
import Mathlib.Tactic.IntervalCases
import PiDigits.Json.Record

namespace PiDigits.Json

variable {α β δ ε : Type} {text rest : List Char}

theorem bind_eq {r : StateT (List Char) (Except ε) α} {f : α → StateT (List Char) (Except ε) β}
    {a : α} (h : r text = .ok (a, rest)) : (r >>= f) text = f a rest := by
  simp only [Bind.bind, StateT.bind, h, Except.bind]

theorem get_bind (f : List Char → StateT (List Char) (Except ε) β) (text : List Char) :
    (get >>= f) text = f text text := rfl

theorem peek?_cons {c : Char} (h : isBlank c = false) (rest : List Char) :
    peek? (c :: rest) = .ok (some c, c :: rest) := by
  have hdrop : (c :: rest).dropWhile isBlank = c :: rest :=
    List.dropWhile_cons_of_neg (by simp [h])
  change Except.ok (((c :: rest).dropWhile isBlank).head?, (c :: rest).dropWhile isBlank) = _
  rw [hdrop, List.head?_cons]

theorem skip_cons (c : Char) (rest : List Char) : skip (c :: rest) = .ok ((), rest) := rfl

theorem take_cons {c : Char} (h : isBlank c = false) (rest : List Char) :
    take c (c :: rest) = .ok ((), rest) := by
  rw [take, bind_eq (peek?_cons h rest), if_pos rfl, skip_cons]

/-! ### Integers -/

def EndsNumber (rest : List Char) : Prop :=
  ∀ c ∈ rest.head?, c.isDigit = false ∧ c ∉ ['.', 'e', 'E']

theorem endsNumber_nil : EndsNumber [] := by
  intro c hc
  cases hc

theorem digits_append {cs : List Char} (hcs : ∀ c ∈ cs, c.isDigit = true)
    (hrest : EndsNumber rest) : digits (cs ++ rest) = .ok (cs, rest) := by
  have hnone : rest.takeWhile Char.isDigit = [] ∧ rest.dropWhile Char.isDigit = rest := by
    cases rest with
    | nil => exact ⟨rfl, rfl⟩
    | cons c rest =>
      have hc : ¬ c.isDigit = true := by simp [(hrest c rfl).1]
      exact ⟨List.takeWhile_cons_of_neg hc, List.dropWhile_cons_of_neg hc⟩
  change Except.ok ((cs ++ rest).takeWhile Char.isDigit, (cs ++ rest).dropWhile Char.isDigit) = _
  rw [List.takeWhile_append_of_pos hcs, List.dropWhile_append_of_pos hcs, hnone.1, hnone.2,
    List.append_nil]

theorem oneOf?_eq_none {cs : List Char} (h : ∀ c ∈ text.head?, c ∉ cs) :
    oneOf? cs text = .ok (none, text) := by
  rw [oneOf?, get_bind]
  cases text with
  | nil => rfl
  | cons c text =>
    have hc : ¬ cs.contains c = true := by simpa using h c rfl
    simp only [List.head?_cons, if_neg hc]
    rfl

theorem head?_toDigits_append (n : ℕ) (rest : List Char) :
    (Nat.toDigits 10 n ++ rest).head? = (Nat.toDigits 10 n).head? := by
  obtain ⟨c, cs, hcons⟩ := List.exists_cons_of_ne_nil (Nat.toDigits_ne_nil (n := n) (b := 10))
  rw [hcons]
  rfl

theorem head?_toDigits {n : ℕ} (h : 0 < n) : (Nat.toDigits 10 n).head? ≠ some '0' := by
  induction n using Nat.strongRecOn with
  | ind n ih =>
    rw [Nat.toDigits_eq_if (by norm_num)]
    split
    · rw [List.head?_singleton, Ne, Option.some_inj, Nat.digitChar_eq_zero]
      omega
    · rw [head?_toDigits_append]
      exact ih (n / 10) (by omega) (by omega)

theorem isDigit_of_mem_toDigits {n : ℕ} {c : Char} (h : c ∈ Nat.toDigits 10 n) :
    c.isDigit = true :=
  Nat.isDigit_of_mem_toDigits (by norm_num) le_rfl h

theorem no_leading_zero (n : ℕ) :
    ¬((Nat.toDigits 10 n).head? = some '0' ∧ Nat.toDigits 10 n ≠ ['0']) := by
  rintro ⟨hhead, hne⟩
  obtain rfl | hn := Nat.eq_zero_or_pos n
  · exact hne rfl
  · exact head?_toDigits hn hhead

theorem literal_toDigits (n : ℕ) (h : EndsNumber rest) :
    literal (Nat.toDigits 10 n ++ rest) =
      .ok (⟨false, Nat.toDigits 10 n, none, none⟩, rest) := by
  have hsign :
      oneOf? ['-'] (Nat.toDigits 10 n ++ rest) = .ok (none, Nat.toDigits 10 n ++ rest) := by
    apply oneOf?_eq_none
    intro c hc hminus
    rw [head?_toDigits_append] at hc
    have hdigit := isDigit_of_mem_toDigits (List.mem_of_mem_head? hc)
    rw [List.mem_singleton.mp hminus] at hdigit
    cases hdigit
  have hwhole : someDigits (Nat.toDigits 10 n ++ rest) = .ok (Nat.toDigits 10 n, rest) := by
    rw [someDigits, bind_eq (digits_append (fun c => isDigit_of_mem_toDigits) h), if_neg]
    · rfl
    · simp [Nat.toDigits_ne_nil]
  have hpoint : oneOf? ['.'] rest = .ok (none, rest) :=
    oneOf?_eq_none fun c hc hmem => (h c hc).2 (by simp_all)
  have hexponent : oneOf? ['e', 'E'] rest = .ok (none, rest) :=
    oneOf?_eq_none fun c hc hmem => (h c hc).2 (by simp_all)
  rw [literal, bind_eq hsign, bind_eq hwhole, if_neg (no_leading_zero n), bind_eq hpoint]
  dsimp only
  rw [pure_bind, bind_eq hexponent]
  dsimp only
  rw [pure_bind]
  rfl

theorem number_toDigits {n : ℕ} (hn : n < UInt64.size) (h : EndsNumber rest) :
    number (Nat.toDigits 10 n ++ rest) = .ok (.natural n.toUInt64, rest) := by
  have hnumber : (⟨false, Nat.toDigits 10 n, none, none⟩ : Literal).number? =
      some (.natural n.toUInt64) := by
    rw [Literal.number?]
    simp only [Nat.ofDigitChars_ten_toDigits]
    rw [if_neg (by simp [hn])]
    rfl
  rw [number, bind_eq (literal_toDigits n h), hnumber]
  rfl

theorem readInteger_toDigits {n : ℕ} {high : ℤ} (hn : n < UInt64.size) (hhigh : n ≤ high)
    (low : ℤ) (expected : String) (h : EndsNumber rest) :
    readInteger low high expected (Nat.toDigits 10 n ++ rest) = .ok ((n : ℤ), rest) := by
  obtain ⟨c, cs, hcons⟩ := List.exists_cons_of_ne_nil (Nat.toDigits_ne_nil (n := n) (b := 10))
  have hdigit : c.isDigit = true := isDigit_of_mem_toDigits (n := n) (by simp [hcons])
  have hblank : isBlank c = false := by
    rw [Bool.eq_false_iff]
    intro hblank
    simp only [isBlank, Bool.or_eq_true, decide_eq_true_iff] at hblank
    rcases hblank with ((rfl | rfl) | rfl) | rfl <;> cases hdigit
  have hpeek : peek? (Nat.toDigits 10 n ++ rest) = .ok (some c, Nat.toDigits 10 n ++ rest) := by
    rw [hcons]
    exact peek?_cons hblank _
  have hstart : (some c).any startsNumber = true := by simp [startsNumber, hdigit]
  have htoNat : (n.toUInt64.toNat : ℤ) = n := by
    rw [Nat.toUInt64, UInt64.toNat_ofNat', Nat.mod_eq_of_lt hn]
  rw [readInteger, bind_eq hpeek, if_pos hstart, bind_eq (number_toDigits hn h)]
  dsimp only
  rw [htoNat, if_pos hhigh]
  rfl

/-! ### Strings -/

namespace Quoted

theorem escape_control : ∀ k < 32,
    (['b', 'f', 'n', 'r', 't'].any fun letter =>
      escape (.ofNat k) = ['\\', letter] ∧ escaped? letter = some (.ofNat k)) = true ∨
    escape (.ofNat k) =
        ['\\', 'u', '0', '0', Nat.digitChar (k / 16), Nat.digitChar (k % 16)] ∧
      unit? '0' '0' (Nat.digitChar (k / 16)) (Nat.digitChar (k % 16)) = some k := by
  decide +kernel

theorem read?_control {k : ℕ} (hk : k < 32) (done rest : List Char) :
    read? done (escape (.ofNat k) ++ rest) = read? (.ofNat k :: done) rest := by
  rcases escape_control k hk with hletters | ⟨hescape, hunit⟩
  · obtain ⟨letter, hletter, hread⟩ := List.any_eq_true.mp hletters
    obtain ⟨hescape, hescaped⟩ := of_decide_eq_true hread
    rw [hescape, List.cons_append, List.cons_append, List.nil_append, read?, hescaped]
    rintro _ _ _ _ _ rfl
    simp at hletter
  · have htrailing : isTrailing k = false := by
      rw [isTrailing, decide_eq_false (by omega), Bool.false_and]
    have hleading : isLeading k = false := by
      rw [isLeading, decide_eq_false (by omega), Bool.false_and]
    rw [hescape]
    simp [read?, hunit, htrailing, hleading]

theorem read?_escape (c : Char) (done rest : List Char) :
    read? done (escape c ++ rest) = read? (c :: done) rest := by
  by_cases hc : c.toNat < 32
  · rw [← Char.ofNat_toNat c]
    exact read?_control hc done rest
  by_cases hquote : c = '"'
  · subst hquote
    rfl
  by_cases hslash : c = '\\'
  · subst hslash
    rfl
  have hcontrol : isControl c = false := by
    rw [isControl, decide_eq_false_iff_not]
    exact hc
  have hescape : escape c = [c] := by
    rw [escape.eq_def]
    split <;> simp_all
  rw [hescape, List.singleton_append, read?, hcontrol]
  all_goals simp_all

theorem read?_flatMap_escape (cs done rest : List Char) :
    read? done (cs.flatMap escape ++ '"' :: rest) = some (done.reverse ++ cs, rest) := by
  induction cs generalizing done with
  | nil => rw [List.flatMap_nil, List.nil_append, read?, List.append_nil]
  | cons c cs ih =>
    rw [List.flatMap_cons, List.append_assoc, read?_escape, ih, List.reverse_cons,
      List.append_assoc, List.singleton_append]

end Quoted

theorem toList_writeQuoted (s : String) :
    (writeQuoted s).toList = '"' :: s.toList.flatMap Quoted.escape ++ ['"'] := by
  rw [writeQuoted, String.toList_ofList]

theorem readQuoted_escape (s : String) (rest : List Char) :
    readQuoted (s.toList.flatMap Quoted.escape ++ '"' :: rest) = .ok (s, rest) := by
  have hread := Quoted.read?_flatMap_escape s.toList [] rest
  rw [readQuoted, get_bind, hread, List.reverse_nil, List.nil_append]
  change Except.ok (String.ofList s.toList, rest) = _
  rw [String.ofList_toList]

/-! ### Named variants -/

theorem readChoice_quote (names : List String) (alone content : String → Reader α)
    (rest : List Char) :
    readChoice names alone content ('"' :: rest) =
      (readQuoted >>= fun name =>
        (if names.contains name then pure name else mismatch (.unknownVariant name names)) >>=
          alone) rest := rfl

theorem readName_writeQuoted {all : List α} {name : α → String} {a : α}
    (ha : all.find? (name · = name a) = some a) (rest : List Char) :
    readName all name ((writeQuoted (name a)).toList ++ rest) = .ok (a, rest) := by
  have hknown : (all.map name).contains (name a) = true := by
    simpa using ⟨a, List.mem_of_find?_eq_some ha, rfl⟩
  rw [toList_writeQuoted, List.append_assoc, List.cons_append, List.singleton_append, readName,
    readChoice_quote, bind_eq (readQuoted_escape _ _), if_pos hknown, pure_bind, ha]
  rfl

/-! ### Records -/

def writeEntries : (first : Bool) → List (String × List Char) → List Char
  | _, [] => []
  | first, (name, value) :: entries =>
    (if first then [] else [',']) ++ (writeQuoted name).toList ++ ':' :: value ++
      writeEntries false entries

def writeObject (entries : List (String × List Char)) : String :=
  String.ofList ('{' :: writeEntries true entries ++ ['}'])

def EndsEntry (rest : List Char) : Prop := rest.head? = some ',' ∨ rest.head? = some '}'

theorem EndsEntry.endsNumber (h : EndsEntry rest) : EndsNumber rest := by
  intro c hc
  rcases h with h | h <;> rw [h] at hc <;> cases hc <;> decide

theorem endsEntry_writeEntries (entries : List (String × List Char)) (rest : List Char) :
    EndsEntry (writeEntries false entries ++ '}' :: rest) := by
  cases entries with
  | nil => exact .inr rfl
  | cons entry entries => exact .inl rfl

theorem length_le_writeEntries (first : Bool) (entries : List (String × List Char)) :
    entries.length ≤ (writeEntries first entries).length := by
  induction entries generalizing first with
  | nil => exact Nat.zero_le _
  | cons entry entries ih =>
    have hle := ih false
    simp only [writeEntries, List.length_append, List.length_cons]
    omega

namespace Layout

inductive Fills (l : Layout δ α) : δ → List (String × List Char) → δ → Prop
  | nil (draft : δ) : Fills l draft [] draft
  | cons {draft draft' draft'' : δ} {name : String} {value : List Char} {field : Field δ}
    {entries : List (String × List Char)} :
    l.fields.find? (·.name = name) = some field → field.isSet draft = false →
    (∀ rest, EndsEntry rest → field.read draft (value ++ rest) = .ok (draft', rest)) →
    Fills l draft' entries draft'' → Fills l draft ((name, value) :: entries) draft''

theorem Fills.append {l : Layout δ α} {draft draft' draft'' : δ}
    {entries more : List (String × List Char)} (h : l.Fills draft entries draft')
    (h' : l.Fills draft' more draft'') : l.Fills draft (entries ++ more) draft'' := by
  induction h with
  | nil => exact h'
  | cons hfield hset hread _ ih => exact .cons hfield hset hread (ih h')

theorem readEntries_brace (l : Layout δ α) (count : ℕ) (first : Bool) (draft : δ)
    (rest : List Char) :
    l.readEntries (count + 1) first draft ('}' :: rest) = .ok (draft, '}' :: rest) := rfl

theorem readEntries_quote (l : Layout δ α) (count : ℕ) (draft : δ) (rest : List Char) :
    l.readEntries (count + 1) true draft ('"' :: rest) =
      (readQuoted >>= fun name =>
        match l.fields.find? (·.name = name) with
        | none => take ':' >>= fun _ => pass >>= fun _ => l.readEntries count false draft
        | some field =>
          if field.isSet draft then mismatch (.duplicateField name)
          else take ':' >>= fun _ => field.read draft >>= l.readEntries count false) rest := rfl

theorem readEntries_comma (l : Layout δ α) (count : ℕ) (draft : δ) (rest : List Char) :
    l.readEntries (count + 1) false draft (',' :: '"' :: rest) =
      l.readEntries (count + 1) true draft ('"' :: rest) := rfl

theorem readEntries_entry (l : Layout δ α) {draft draft' : δ} {name : String} {field : Field δ}
    {value back : List Char} (hfield : l.fields.find? (·.name = name) = some field)
    (hset : field.isSet draft = false)
    (hread : field.read draft (value ++ back) = .ok (draft', back)) (count : ℕ) (first : Bool) :
    l.readEntries (count + 1) first draft
        ((if first then [] else [',']) ++ (writeQuoted name).toList ++ ':' :: value ++ back) =
      l.readEntries count false draft' back := by
  have hname : (writeQuoted name).toList ++ ':' :: value ++ back =
      '"' :: (name.toList.flatMap Quoted.escape ++ '"' :: ':' :: (value ++ back)) := by
    rw [toList_writeQuoted]
    simp
  have hquote : l.readEntries (count + 1) true draft
      ((writeQuoted name).toList ++ ':' :: value ++ back) =
        l.readEntries count false draft' back := by
    rw [hname, readEntries_quote, bind_eq (readQuoted_escape _ _), hfield]
    dsimp only
    rw [hset, if_neg Bool.false_ne_true, bind_eq (take_cons rfl _), bind_eq hread]
  cases first with
  | true =>
    rw [if_pos rfl, List.nil_append]
    exact hquote
  | false =>
    rw [← hquote, hname, ← readEntries_comma, ← hname]
    simp

theorem Fills.readEntries {l : Layout δ α} {draft draft' : δ}
    {entries : List (String × List Char)} (h : l.Fills draft entries draft') {count : ℕ}
    (hcount : entries.length < count) (first : Bool) (rest : List Char) :
    l.readEntries count first draft (writeEntries first entries ++ '}' :: rest) =
      .ok (draft', '}' :: rest) := by
  induction h generalizing count first with
  | nil draft =>
    obtain ⟨count, rfl⟩ := Nat.exists_eq_add_of_le' hcount
    exact l.readEntries_brace _ first draft rest
  | @cons draft _ _ name value field entries hfield hset hread _ ih =>
    obtain ⟨count, rfl⟩ := Nat.exists_eq_add_of_le' (Nat.one_le_of_lt hcount)
    rw [writeEntries, List.append_assoc,
      l.readEntries_entry hfield hset (hread _ (endsEntry_writeEntries entries rest))]
    exact ih (by simpa using hcount) false

theorem read_brace (l : Layout δ α) (rest : List Char) :
    l.read ('{' :: rest) =
      (l.readEntries (rest.length + 1) true l.empty >>= fun draft =>
        l.finish .missingField draft >>= fun a => take '}' >>= fun _ => pure a) rest := rfl

theorem read_writeObject {l : Layout δ α} {draft : δ} {entries : List (String × List Char)} {a : α}
    (h : l.Fills l.empty entries draft) (ha : l.complete draft = .ok a) :
    readAll l.read (writeObject entries) = .ok a := by
  have hfinish : l.finish .missingField draft = pure a := by
    rw [finish, ha]
  have hcount : entries.length < (writeEntries true entries ++ ['}']).length + 1 := by
    have hle := length_le_writeEntries true entries
    rw [List.length_append]
    omega
  have hread : l.read (writeObject entries).toList = .ok (a, []) := by
    rw [writeObject, String.toList_ofList, List.cons_append, read_brace,
      bind_eq (h.readEntries hcount true []), hfinish, pure_bind, bind_eq (take_cons rfl _)]
    rfl
  rw [readAll, hread]
  rfl

end Layout

end PiDigits.Json
