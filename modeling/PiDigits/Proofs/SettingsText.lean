import PiDigits.Proofs.JsonReading
import PiDigits.Settings.Text

namespace PiDigits

open Json

theorem Arithmetic.read_name (a : Arithmetic) (rest : List Char) :
    Arithmetic.read ((writeQuoted a.name).toList ++ rest) = .ok (a, rest) :=
  readName_writeQuoted (by cases a <;> decide) rest

theorem Policy.read_name (policy : Policy) (rest : List Char) :
    Policy.read ((writeQuoted policy.name).toList ++ rest) = .ok (policy, rest) :=
  readName_writeQuoted (by cases policy <;> decide) rest

namespace Settings

variable (s : Settings)

def entries : List (String × List Char) := [
    ("digit_count", Nat.toDigits 10 s.digitCount.toNat),
    ("arithmetic", (writeQuoted s.arithmetic.name).toList),
    ("carry_reset", (writeQuoted s.policy.name).toList)]

theorem text_eq : s.text = writeObject s.entries := by
  have hcount :
      "\x7b\"digit_count\":".toList = '{' :: (writeQuoted "digit_count").toList ++ [':'] := by
    decide +kernel
  have harithmetic : ",\"arithmetic\":".toList =
      ',' :: (writeQuoted "arithmetic").toList ++ [':'] := by
    decide +kernel
  have hpolicy : ",\"carry_reset\":".toList =
      ',' :: (writeQuoted "carry_reset").toList ++ [':'] := by
    decide +kernel
  have hend : "\x7d".toList = ['}'] := by decide +kernel
  apply String.toList_injective
  unfold text
  rw [writeObject, String.toList_ofList]
  simp only [String.toList_append, hcount, harithmetic, hpolicy, hend,
    Nat.toString_eq_ofList_toDigits, String.toList_ofList, entries, writeEntries]
  simp

theorem readCount_toDigits (n : UInt64) {rest : List Char} (h : EndsNumber rest) :
    readCount (Nat.toDigits 10 n.toNat ++ rest) = .ok (n, rest) := by
  have hn : n.toNat < UInt64.size := n.toNat_lt
  have hhigh : (n.toNat : ℤ) ≤ UInt64.size - 1 := by omega
  rw [readCount, bind_eq (readInteger_toDigits hn hhigh _ _ h), Int.toNat_natCast, Nat.toUInt64,
    UInt64.ofNat_toNat]
  rfl

def textWithout (omitted : List String) : String :=
  writeObject (s.entries.filter fun entry => entry.1 ∉ omitted)

def withDefaults (omitted : List String) : Settings where
  digitCount := s.digitCount
  arithmetic := if "arithmetic" ∈ omitted then default else s.arithmetic
  policy := if "carry_reset" ∈ omitted then default else s.policy

theorem textWithout_nil : s.textWithout [] = s.text := by
  rw [text_eq, textWithout, List.filter_eq_self.mpr]
  simp

theorem fills_digitCount :
    layout.Fills layout.empty [("digit_count", Nat.toDigits 10 s.digitCount.toNat)]
      ⟨some s.digitCount, none, none⟩ := by
  refine .cons rfl rfl ?_ (.nil _)
  intro rest hrest
  dsimp only
  rw [bind_eq (readCount_toDigits s.digitCount hrest.endsNumber)]
  rfl

theorem fills_arithmetic (n : UInt64) :
    layout.Fills ⟨some n, none, none⟩ [("arithmetic", (writeQuoted s.arithmetic.name).toList)]
      ⟨some n, some s.arithmetic, none⟩ := by
  refine .cons rfl rfl ?_ (.nil _)
  intro rest hrest
  dsimp only
  rw [bind_eq (Arithmetic.read_name s.arithmetic rest)]
  rfl

theorem fills_policy (n : UInt64) (arithmetic? : Option Arithmetic) :
    layout.Fills ⟨some n, arithmetic?, none⟩ [("carry_reset", (writeQuoted s.policy.name).toList)]
      ⟨some n, arithmetic?, some s.policy⟩ := by
  refine .cons rfl rfl ?_ (.nil _)
  intro rest hrest
  dsimp only
  rw [bind_eq (Policy.read_name s.policy rest)]
  rfl

theorem fills_entries {omitted : List String} (h : "digit_count" ∉ omitted) :
    layout.Fills layout.empty (s.entries.filter fun entry => entry.1 ∉ omitted)
      ⟨some s.digitCount, if "arithmetic" ∈ omitted then none else some s.arithmetic,
        if "carry_reset" ∈ omitted then none else some s.policy⟩ := by
  have hcount := s.fills_digitCount
  have harithmetic := s.fills_arithmetic s.digitCount
  have hpolicy := s.fills_policy s.digitCount
  by_cases ha : "arithmetic" ∈ omitted
  · by_cases hp : "carry_reset" ∈ omitted
    · simpa [entries, h, ha, hp] using hcount
    · simpa [entries, h, ha, hp] using hcount.append (hpolicy none)
  · by_cases hp : "carry_reset" ∈ omitted
    · simpa [entries, h, ha, hp] using hcount.append harithmetic
    · simpa [entries, h, ha, hp] using (hcount.append harithmetic).append (hpolicy _)

theorem readAll_textWithout {omitted : List String} (h : "digit_count" ∉ omitted) :
    readAll layout.read (s.textWithout omitted) = .ok (s.withDefaults omitted) := by
  refine Layout.read_writeObject (s.fills_entries h) ?_
  change Except.ok (⟨s.digitCount, _, _⟩ : Settings) = _
  rw [withDefaults, apply_ite (Option.getD · default), apply_ite (Option.getD · default)]
  rfl

variable {s}

theorem ofText_of_read {t : String} (h : readAll layout.read t = .ok s) :
    ofText t = s.validate.mapError .refused >>= fun _ => pure s := by
  rw [ofText, h]
  rfl

theorem ofText_of_ok {t : String} (h : readAll layout.read t = .ok s) (hs : s.validate = .ok ()) :
    ofText t = .ok s := by
  rw [ofText_of_read h, hs]
  rfl

theorem ofText_of_error {t : String} {refusal : Refusal} (h : readAll layout.read t = .ok s)
    (hs : s.validate = .error refusal) : ofText t = .error (.refused refusal) := by
  rw [ofText_of_read h, hs]
  rfl

theorem validate_of_ofText {t : String} (h : ofText t = .ok s) : s.validate = .ok () := by
  cases hread : readAll layout.read t with
  | error e =>
    rw [ofText, hread] at h
    cases h
  | ok s' =>
    cases hvalid : s'.validate with
    | ok valid =>
      rw [ofText_of_ok hread hvalid] at h
      cases h
      exact hvalid
    | error refusal =>
      rw [ofText_of_error hread hvalid] at h
      cases h

theorem withDefaults_nil : s.withDefaults [] = s := rfl

theorem readAll_text (s : Settings) : readAll layout.read s.text = .ok s := by
  rw [← textWithout_nil, s.readAll_textWithout (List.not_mem_nil), withDefaults_nil]

theorem ofText_textWithout {omitted : List String} (h : omitted ⊆ ["arithmetic", "carry_reset"]) :
    ofText (s.textWithout omitted) = ofText (s.withDefaults omitted).text := by
  have hcount : "digit_count" ∉ omitted := by
    intro hmem
    have hname := h hmem
    revert hname
    decide
  rw [ofText, ofText, readAll_textWithout s hcount, readAll_text]

/-- Text gives valid settings only; the text of settings gives them back if they are valid, and
else the refusal that they deserve. What is left out of it is the default. -/
theorem ofText_validated :
    (∀ s : Settings,
      (s.validate = .ok () → ofText s.text = .ok s) ∧
      (∀ refusal, s.validate = .error refusal → ofText s.text = .error (.refused refusal)) ∧
      s.text = s.textWithout [] ∧
      ∀ omitted ⊆ ["arithmetic", "carry_reset"],
        ofText (s.textWithout omitted) = ofText (s.withDefaults omitted).text) ∧
    ∀ t s, ofText t = .ok s → s.validate = .ok () ∧ ofText s.text = .ok s := by
  refine ⟨?_, ?_⟩
  · intro s
    refine ⟨ofText_of_ok s.readAll_text, fun refusal => ofText_of_error s.readAll_text,
      s.textWithout_nil.symm, fun omitted homitted => ofText_textWithout homitted⟩
  · intro t s h
    have hvalid := validate_of_ofText h
    exact ⟨hvalid, ofText_of_ok s.readAll_text hvalid⟩

theorem ofText_validated_unordered :
    (historical 25).validate = .ok () ∧ ofText (historical 25).text = .ok (historical 25) ∧
    (native 18446744073709551615).validate = .error (.tooManyDigits 18446744073709551615) ∧
    ofText (native 18446744073709551615).text =
      .error (.refused (.tooManyDigits 18446744073709551615)) ∧
    ofText ((historical 25).textWithout ["carry_reset"]) = ofText (native 25).text ∧
    ofText "[25, \"Native\"]" = .ok (native 25) ∧ ofText (native 25).text = .ok (native 25) := by
  have hlist : ofText "[25, \"Native\"]" = .ok (native 25) := by decide +kernel
  obtain ⟨hreads, hvalid⟩ := ofText_validated
  refine ⟨by decide, (hreads (historical 25)).1 (by decide), by decide,
    (hreads (native 18446744073709551615)).2.1 _ (by decide),
    (hreads (historical 25)).2.2.2 ["carry_reset"] (by decide), hlist, (hvalid _ _ hlist).2⟩

end Settings

end PiDigits
