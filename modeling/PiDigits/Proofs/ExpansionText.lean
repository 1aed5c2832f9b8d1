import PiDigits.Digit.Text
import PiDigits.Proofs.DirectRun
import PiDigits.Proofs.JsonReading

namespace PiDigits

namespace Digit

variable {d : Digit}

theorem isDecimal_iff : d.IsDecimal ↔ d.value.toNat ≤ 9 := UInt8.le_iff_toNat_le

/-! ### Making digits -/

theorem exists_ofValue?_iff : (∃ value, ofValue? value = some d) ↔ d.IsDecimal := by
  constructor
  · rintro ⟨value, h⟩
    rw [ofValue?] at h
    split at h
    · cases h
      assumption
    · cases h
  · intro h
    exact ⟨d.value, if_pos h⟩

theorem toUInt8_le {w : Word} (h : 0 ≤ w ∧ w ≤ 9) : w.toCount.toUInt8 ≤ 9 := by
  have hlow : 0 ≤ w.toInt := Int64.le_iff_toInt_le.mp h.1
  have hhigh : w.toInt ≤ 9 := Int64.le_iff_toInt_le.mp h.2
  rw [← Int64.ofInt_toInt w]
  interval_cases w.toInt <;> decide

theorem exists_ofWord?_iff : (∃ w, ofWord? w = some d) ↔ d.IsDecimal := by
  constructor
  · rintro ⟨w, h⟩
    rw [ofWord?] at h
    split at h
    · cases h
      exact toUInt8_le ‹_›
    · cases h
  · intro h
    have hle := isDecimal_iff.mp h
    have hvalue : d = ⟨UInt8.ofNat d.value.toNat⟩ := by rw [UInt8.ofNat_toNat]
    refine ⟨Int64.ofNat d.value.toNat, ?_⟩
    rw [hvalue]
    generalize d.value.toNat = a at *
    interval_cases a <;> rfl

theorem char_eq_digitChar (h : d.IsDecimal) : d.char = Nat.digitChar d.value.toNat := by
  have hle := isDecimal_iff.mp h
  rw [char]
  interval_cases d.value.toNat <;> rfl

theorem toNat_char (h : d.IsDecimal) : d.char.toNat = 48 + d.value.toNat := by
  rw [char_eq_digitChar h,
    Nat.toNat_digitChar_of_lt_ten (Nat.lt_succ_of_le (isDecimal_iff.mp h))]

theorem ofChar?_char (h : d.IsDecimal) : ofChar? d.char = some d := by
  have hdigit : d.char.isDigit = true := by
    rw [char_eq_digitChar h, Nat.isDigit_digitChar, decide_eq_true_iff]
    exact Nat.lt_succ_of_le (isDecimal_iff.mp h)
  have hvalue : d.char.toNat - '0'.toNat = d.value.toNat := by
    rw [toNat_char h]
    exact Nat.add_sub_cancel_left 48 _
  rw [ofChar?, if_pos hdigit, hvalue, Nat.toUInt8, UInt8.ofNat_toNat]

theorem ofChar?_eq_some_iff {c : Char} : ofChar? c = some d ↔ d.IsDecimal ∧ c = d.char := by
  constructor
  · intro h
    rw [ofChar?] at h
    split at h
    · rename_i hc
      have hrange := Char.isDigit_iff_toNat.mp hc
      rw [show '0'.toNat = 48 from rfl, show '9'.toNat = 57 from rfl] at hrange
      have hvalue : d.value.toNat = c.toNat - 48 := by
        cases h
        rw [Nat.toUInt8, UInt8.toNat_ofNat', show '0'.toNat = 48 from rfl]
        omega
      have hd : d.IsDecimal := isDecimal_iff.mpr (by omega)
      refine ⟨hd, Char.toNat_inj.mp ?_⟩
      rw [toNat_char hd]
      omega
    · cases h
  · rintro ⟨hd, rfl⟩
    exact ofChar?_char hd

theorem exists_ofChar?_iff : (∃ c, ofChar? c = some d) ↔ d.IsDecimal := by
  constructor
  · rintro ⟨c, h⟩
    exact (ofChar?_eq_some_iff.mp h).1
  · intro h
    exact ⟨d.char, ofChar?_char h⟩

theorem ofJson_json (d : Digit) : ofJson d.json = .ok d := by
  have hlt : d.value.toNat < 256 := d.value.toNat_lt
  have hread : Json.readInteger 0 255 "u8" (Nat.toDigits 10 d.value.toNat ++ []) =
      .ok ((d.value.toNat : ℤ), []) :=
    Json.readInteger_toDigits (by rw [UInt64.size]; omega) (by omega) 0 "u8" Json.endsNumber_nil
  have hdigit : read (Nat.toDigits 10 d.value.toNat) = .ok (d, []) := by
    rw [List.append_nil] at hread
    rw [read, Json.bind_eq hread, Int.toNat_natCast, Nat.toUInt8, UInt8.ofNat_toNat]
    rfl
  rw [ofJson, Json.readAll, json, Nat.toString_eq_ofList_toDigits, String.toList_ofList, hdigit]
  rfl

/-! ### Writing digits -/

theorem exists_toChar_iff : (∃ c, d.toChar = .ok c) ↔ d.value ≤ 207 := by
  have hsize : '0'.toNat + d.value.toNat < UInt8.size ↔ d.value ≤ 207 := by
    rw [UInt8.le_iff_toNat_le, show '0'.toNat = 48 from rfl,
      show (207 : UInt8).toNat = 207 from rfl, UInt8.size]
    omega
  rw [toChar, ← hsize]
  split <;> simp_all

theorem toList_text (d : Digit) : d.text.toList = Nat.toDigits 10 d.value.toNat := by
  rw [text, Nat.toString_eq_ofList_toDigits, String.toList_ofList]

theorem toList_text_of_isDecimal (h : d.IsDecimal) : d.text.toList = [d.char] := by
  rw [toList_text, char_eq_digitChar h,
    Nat.toDigits_of_lt_base (Nat.lt_succ_of_le (isDecimal_iff.mp h))]

theorem length_text_pos (d : Digit) : 0 < d.text.length := by
  rw [← String.length_toList, toList_text]
  exact Nat.length_toDigits_pos

theorem length_text_le_one_iff : d.text.length ≤ 1 ↔ d.IsDecimal := by
  rw [← String.length_toList, toList_text, isDecimal_iff,
    Nat.length_toDigits_le_iff (by norm_num) one_pos]
  omega

end Digit

namespace Expansion

variable {e : Expansion}

theorem text_eq_row (h : ∀ d ∈ e.digits, d.IsDecimal) : e.text = Digit.row e.digits := by
  apply String.toList_injective
  rw [text, String.toList_join, List.flatMap_map, Digit.row, String.toList_ofList,
    List.map_eq_flatMap]
  exact List.flatMap_congr fun d hd => Digit.toList_text_of_isDecimal (h d hd)

theorem isDecimal_of_mem_ofText {s : String} {d : Digit} (h : d ∈ (ofText s).digits) :
    d.IsDecimal := by
  obtain ⟨c, -, hc⟩ := List.mem_filterMap.mp h
  exact (Digit.ofChar?_eq_some_iff.mp hc).1

theorem ofText_row {digits : List Digit} (h : ∀ d ∈ digits, d.IsDecimal) :
    ofText (Digit.row digits) = ⟨digits⟩ := by
  have hchars : (digits.map Digit.char).filterMap Digit.ofChar? = digits := by
    rw [List.filterMap_map]
    calc digits.filterMap (Digit.ofChar? ∘ Digit.char)
        = digits.filterMap some := List.filterMap_congr fun d hd => Digit.ofChar?_char (h d hd)
      _ = digits := List.filterMap_some
  rw [ofText, Digit.row, String.toList_ofList, hchars]

theorem map_char_filterMap (cs : List Char) :
    (cs.filterMap Digit.ofChar?).map Digit.char = cs.filter Char.isDigit := by
  induction cs with
  | nil => rfl
  | cons c cs ih =>
    cases hc : Digit.ofChar? c with
    | none =>
      have hdigit : ¬ c.isDigit = true := by
        intro hdigit
        rw [Digit.ofChar?, if_pos hdigit] at hc
        cases hc
      rw [List.filterMap_cons_none hc, List.filter_cons_of_neg hdigit, ih]
    | some d =>
      have hdigit : c.isDigit = true := by
        by_contra hdigit
        rw [Digit.ofChar?, if_neg hdigit] at hc
        cases hc
      rw [List.filterMap_cons_some hc, List.map_cons, List.filter_cons_of_pos hdigit, ih,
        ← (Digit.ofChar?_eq_some_iff.mp hc).2]

theorem text_ofText (s : String) :
    (ofText s).text = String.ofList (s.toList.filter Char.isDigit) := by
  rw [text_eq_row fun d => isDecimal_of_mem_ofText, Digit.row, ofText, map_char_filterMap]

theorem ofText_text_eq_iff : ofText e.text = e ↔ ∀ d ∈ e.digits, d.IsDecimal := by
  constructor
  · intro h d hd
    rw [← h] at hd
    exact isDecimal_of_mem_ofText hd
  · intro h
    rw [text_eq_row h, ofText_row h]

theorem sum_length_text (digits : List Digit) :
    digits.length ≤ (digits.map fun d => d.text.length).sum ∧
      ((digits.map fun d => d.text.length).sum = digits.length ↔
        ∀ d ∈ digits, d.IsDecimal) := by
  induction digits with
  | nil => simp
  | cons d digits ih =>
    have hpos := d.length_text_pos
    rw [List.map_cons, List.sum_cons, List.length_cons, List.forall_mem_cons, ← ih.2,
      ← Digit.length_text_le_one_iff]
    omega

theorem length_text_eq_iff : e.text.length = e.length ↔ ∀ d ∈ e.digits, d.IsDecimal := by
  rw [text, String.length_join, List.map_map]
  exact (sum_length_text e.digits).2

theorem mapM_toChar_digits (h : ∀ d ∈ e.digits, d.IsDecimal) :
    e.digits.mapM Digit.toChar = .ok e.text.toList := by
  rw [text_eq_row h, Digit.mapM_toChar h]

/-- Digits are decimal if they are made from values, words or characters, but stored text makes
every byte a digit. An expansion has a character for each digit, and reads back from its text, just
if its digits are decimal; a text gives an expansion that is written as the digits of the text. -/
theorem text_limits (d : Digit) (e : Expansion) (s : String) :
    ((∃ value, Digit.ofValue? value = some d) ↔ d.IsDecimal) ∧
    ((∃ w, Digit.ofWord? w = some d) ↔ d.IsDecimal) ∧
    ((∃ c, Digit.ofChar? c = some d) ↔ d.IsDecimal) ∧
    Digit.ofJson d.json = .ok d ∧
    ((∃ c, d.toChar = .ok c) ↔ d.value ≤ 207) ∧
    ((∀ d ∈ e.digits, d.IsDecimal) → e.digits.mapM Digit.toChar = .ok e.text.toList) ∧
    (e.text.length = e.length ↔ ∀ d ∈ e.digits, d.IsDecimal) ∧
    (ofText e.text = e ↔ ∀ d ∈ e.digits, d.IsDecimal) ∧
    (ofText s).text = String.ofList (s.toList.filter Char.isDigit) :=
  ⟨Digit.exists_ofValue?_iff, Digit.exists_ofWord?_iff, Digit.exists_ofChar?_iff, d.ofJson_json,
    Digit.exists_toChar_iff, mapM_toChar_digits, length_text_eq_iff, ofText_text_eq_iff,
    text_ofText s⟩

theorem text_limits_pi :
    (∀ d ∈ (ofText "3.1415").digits, d.IsDecimal) ∧
    (ofText "3.1415").digits.mapM Digit.toChar = .ok ['3', '1', '4', '1', '5'] ∧
    (ofText "3.1415").text = "31415" := by
  obtain ⟨-, -, -, -, -, hchars, -, -, htext⟩ := text_limits .nine (ofText "3.1415") "3.1415"
  have hdecimal : ∀ d ∈ (ofText "3.1415").digits, d.IsDecimal := by decide +kernel
  have hpi : (ofText "3.1415").text = "31415" := htext.trans (by decide +kernel)
  refine ⟨hdecimal, (hchars hdecimal).trans ?_, hpi⟩
  rw [hpi]
  decide +kernel

theorem exists_ofText_text_ne :
    ∃ ten large : Digit, Digit.ofJson "10" = .ok ten ∧ ¬ ten.IsDecimal ∧
      (⟨[ten]⟩ : Expansion).text.length ≠ (⟨[ten]⟩ : Expansion).length ∧
      ofText (⟨[ten]⟩ : Expansion).text ≠ ⟨[ten]⟩ ∧
      Digit.ofJson "208" = .ok large ∧ large.toChar = .error .sumTooLarge := by
  refine ⟨⟨10⟩, ⟨208⟩, ?_⟩
  decide +kernel

end Expansion

end PiDigits
