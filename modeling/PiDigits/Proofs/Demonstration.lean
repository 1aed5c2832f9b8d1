import PiDigits.Proofs.DecimalPrecision
import PiDigits.Proofs.DigitCount
import PiDigits.Proofs.DirectRun
import PiDigits.Proofs.ColumnAllocation
import PiDigits.Proofs.ExpansionText
import PiDigits.Proofs.FaultlessRun
import PiDigits.Proofs.PassedExamination

namespace PiDigits

/-! ### Decimal numbers as text -/

theorem Digit.toDigits_number {first : Digit} {rest : List Digit} (hfirst : first.value ≠ 0)
    (h : ∀ d ∈ first :: rest, d.IsDecimal) :
    Nat.toDigits 10 (number (first :: rest)) = (first :: rest).map char := by
  -- a number is written from its last digit back, so one digit is taken off the end
  induction rest using List.reverseRecOn with
  | nil =>
    have hle := isDecimal_iff.mp (h first List.mem_cons_self)
    rw [number_cons, number_nil, List.length_nil, pow_zero, Nat.mul_one, Nat.add_zero,
      Nat.toDigits_of_lt_base (Nat.lt_succ_of_le hle), List.map_singleton,
      char_eq_digitChar (h first List.mem_cons_self)]
  | append_singleton rest d ih =>
    have hd : d.IsDecimal := h d (by simp)
    have hlt : d.value.toNat < 10 := Nat.lt_succ_of_le (isDecimal_iff.mp hd)
    have hpos : 0 < number (first :: rest) := by
      have hvalue : 0 < first.value.toNat :=
        Nat.pos_of_ne_zero fun hzero => hfirst (UInt8.toNat_inj.mp hzero)
      rw [number_cons]
      positivity
    rw [← List.cons_append, number_snoc, ← Nat.toDigits_append_toDigits (by norm_num) hpos hlt,
      ih fun e he => h e (List.mem_append_left [d] he), Nat.toDigits_of_lt_base hlt,
      List.map_append, List.map_singleton, char_eq_digitChar hd]

namespace Decimal

theorem text_eq {d : Decimal} {whole : Char} {fraction : List Char}
    (hmantissa : Nat.toDigits 10 d.mantissa = whole :: fraction)
    (hscale : d.scale = fraction.length) :
    d.text = String.ofList (whole :: if fraction.isEmpty then [] else '.' :: fraction) := by
  simp only [text, hmantissa, hscale, List.length_cons, Nat.sub_self, List.replicate_zero,
    List.nil_append, Nat.add_sub_cancel_left, List.take_succ_cons, List.take_zero,
    List.drop_succ_cons, List.drop_zero]
  cases fraction <;> rfl

def pointed (whole : Digit) (fraction : List Digit) : String :=
  String.ofList
    (whole.char :: if fraction.isEmpty then [] else '.' :: fraction.map Digit.char)

theorem text_number {whole : Digit} {fraction : List Digit} (hwhole : whole.value ≠ 0)
    (h : ∀ d ∈ whole :: fraction, d.IsDecimal) :
    (⟨Digit.number (whole :: fraction), fraction.length⟩ : Decimal).text =
      pointed whole fraction := by
  rw [text_eq (Digit.toDigits_number hwhole h) (List.length_map Digit.char).symm, List.isEmpty_map,
    pointed]

end Decimal

theorem Expansion.text_toDecimal? {whole : Digit} {rest : List Digit}
    (hwhole : whole.value ≠ 0) (hsmall : whole.value ≤ 6)
    (h : ∀ d ∈ whole :: rest, d.IsDecimal) :
    ∃ d, (⟨whole :: rest⟩ : Expansion).toDecimal? = some d ∧
      d.text = Decimal.pointed whole (rest.take 28) := by
  have hfits := number_take_lt_of_first (List.forall_mem_cons.mp h).2 hsmall
  have hscale : min (rest.length + 1 - 1) 28 = (rest.take 28).length := by
    rw [List.length_take]
    omega
  refine ⟨_, (toDecimal?_eq (List.cons_ne_nil whole rest)).trans (if_pos hfits), ?_⟩
  rw [length, List.length_cons, hscale, List.take_succ_cons]
  apply Decimal.text_number hwhole
  intro d hd
  exact h d (List.mem_of_mem_take (i := 29) hd)

namespace CommandLine

/-! ### Sessions -/

def lines (ls : List String) : String := String.join (ls.map (· ++ "\n"))

theorem lines_cons (line : String) (ls : List String) :
    lines (line :: ls) = line ++ "\n" ++ lines ls := String.join_cons

theorem lines_append (ls more : List String) : lines (ls ++ more) = lines ls ++ lines more := by
  rw [lines, List.map_append, String.join_append, lines, lines]

section

variable {α β : Type} {x : Session α} {f : α → Session β} {ls more : List String}

theorem print_run (text : String) (ls more : List String) (h : text ++ "\n" = lines more) :
    (print text).run (lines ls) = (.ok (), lines (ls ++ more)) := by
  rw [lines_append, ← h, ← String.append_assoc]
  rfl

theorem print_run_line (ls : List String) (line : String) :
    (print line).run (lines ls) = (.ok (), lines (ls ++ [line])) := by
  apply print_run
  rw [lines_cons]
  exact String.append_empty.symm

theorem bind_run_of_ok {a : α} (h : x.run (lines ls) = (.ok a, lines more)) :
    (x >>= f).run (lines ls) = (f a).run (lines more) := by
  change (ExceptT.bindCont f (x.run (lines ls)).1) (x.run (lines ls)).2 = _
  rw [h]
  rfl

theorem bind_run_of_error {e : UInt8 × String} (h : x.run (lines ls) = (.error e, lines more)) :
    (x >>= f).run (lines ls) = (.error e, lines more) := by
  change (ExceptT.bindCont f (x.run (lines ls)).1) (x.run (lines ls)).2 = _
  rw [h]
  rfl

theorem sound_run (ls : List String) (a : α) :
    (sound (.ok a)).run (lines ls) = (.ok a, lines ls) := rfl

end

open Spigot

variable {n : UInt64} (ls : List String)

def passed : String := "Self-test passed: 169 checks on Emulated (6 skipped)"

theorem examine_run : examine.run (lines ls) = (.ok (), lines (ls ++ [passed, ""])) := by
  obtain ⟨memory, hrun⟩ := SelfTest.run_counting ()
  rw [examine, hrun, bind_run_of_ok (sound_run ls _)]
  exact print_run _ ls [passed, ""] (by decide)

structure Agreed (n : UInt64) (digits : List Digit) : Prop where
  counted : ∃ s s', (Settings.counting n).start = .ok (.ok s) ∧
    s.collect = .ok (.ok ⟨digits⟩) s'
  direct : Direct.digits n .resetBoth = .ok (Digit.row digits)
  decimal : ∀ d ∈ digits, d.IsDecimal
  head? : digits.head? = some (.ofNat 3)

theorem validate_counting (h : Admissible n) (hn : 1 ≤ n.toNat) :
    (Settings.counting n).validate = .ok () := by
  have hlt := h.lt
  rw [columnCount] at hlt
  refine (Settings.validate_eq_ok_iff _).mpr ⟨?_, ?_⟩
  · rintro rfl
    exact absurd hn (by decide)
  · rw [show Int64.maxValue.toInt = 2 ^ 63 - 1 from rfl]
    change 10 * (n.toNat : ℤ) ≤ _
    omega

theorem agreed (h : Admissible n) (hn : 1 ≤ n.toNat) :
    Agreed n (Exact.final n.toNat .resetBoth).output where
  counted := by
    obtain ⟨s, hstart, hfollows⟩ := start_follows () n (h.serves_machine .counting)
    have hsound := (Exact.sound_start n.toNat).withPolicy .resetBoth
    obtain ⟨_, s', hcollect, rfl, -⟩ := collect_ends (hfollows.withPolicy .resetBoth) hsound
    rw [(Exact.final_ended .resetBoth h.lt_roundLimit).1] at hcollect
    refine ⟨s.withPolicy .resetBoth, s', ?_, hcollect⟩
    rw [Settings.start_eq _ (validate_counting h hn)]
    change Except.ok ((·.withPolicy .resetBoth) <$> start Arithmetic.counting.machine () n) = _
    rw [hstart]
    rfl
  direct := Direct.digits_eq h .resetBoth
  decimal _ := (Exact.sound_final n.toNat .resetBoth).isDecimal_output
  head? := by
    have hfine := (Exact.kept_fine n.toNat).take
      ((Exact.fine_start n.toNat).withPolicy .resetBoth) Machine.roundLimit
    exact (Exact.final_ended .resetBoth h.lt_roundLimit).2.head?_output
      (Exact.counted_final n.toNat .resetBoth) hfine.opened hn

variable {digits : List Digit}

theorem Agreed.expansion_run (h : Agreed n digits) :
    (expansion n).run (lines ls) = (.ok ⟨digits⟩, lines ls) := by
  obtain ⟨s, s', hstart, hcollect⟩ := h.counted
  rw [expansion, hstart]
  dsimp only
  rw [bind_run_of_ok (sound_run ls _), EStateM.run, hcollect]
  rfl

theorem expansion_run_of_refused {refusal : Settings.Refusal}
    (h : (Settings.counting n).start = .error refusal) :
    (expansion n).run (lines ls) =
      (.error (2, "invalid configuration: " ++ refusal.message ++ "\n"), lines ls) := by
  rw [expansion, h]
  rfl

def opening : List String := ["=== Pi Spigot Example ===", "", passed, ""]

def agreement (digits fraction : List Digit) : List String :=
  ["Emulated:  " ++ Digit.row digits, "Reference: " ++ Digit.row digits, "",
    "Outputs match (" ++ toString digits.length ++ " digits)",
    "As decimal: " ++ Decimal.pointed (.ofNat 3) fraction]

theorem opening_run {f : Unit → Session Unit} :
    (print "=== Pi Spigot Example ===\n" >>= fun _ => examine >>= f).run "" =
      (f ()).run (lines opening) := by
  have htitle := print_run "=== Pi Spigot Example ===\n" [] ["=== Pi Spigot Example ===", ""]
    (by decide)
  rw [show "" = lines [] from rfl, bind_run_of_ok htitle, bind_run_of_ok (examine_run _)]
  rfl

theorem print_run_matched (count : ℕ) :
    (print s!"\nOutputs match ({count} digits)").run (lines ls) =
      (.ok (), lines (ls ++ ["", "Outputs match (" ++ toString count ++ " digits)"])) := by
  apply print_run
  change "\nOutputs match (" ++ toString count ++ " digits)" ++ "\n" = _
  rw [lines_cons, lines_cons, show "\nOutputs match (" = "\n" ++ "Outputs match (" by decide]
  simp only [String.append_assoc, String.empty_append]
  rfl

theorem Agreed.session_run (h : Agreed n digits) :
    (session n).run "" = (.ok (), lines (opening ++ agreement digits (digits.tail.take 28))) := by
  obtain ⟨rest, rfl⟩ := List.head?_eq_some_iff.mp h.head?
  obtain ⟨d, hd, htext⟩ := Expansion.text_toDecimal? (by decide) (by decide) h.decimal
  have hrow : (⟨.ofNat 3 :: rest⟩ : Expansion).text = Digit.row (.ofNat 3 :: rest) :=
    Expansion.text_eq_row h.decimal
  rw [session, opening_run, bind_run_of_ok (h.expansion_run _), h.direct,
    bind_run_of_ok (sound_run _ _), bind_run_of_ok (print_run_line _ _),
    bind_run_of_ok (print_run_line _ _), if_pos hrow, bind_run_of_ok (print_run_matched _ _), hd]
  dsimp only
  rw [print_run_line, htext, hrow, List.tail_cons]
  simp only [List.append_assoc]
  rfl

theorem session_run_of_refused {refusal : Settings.Refusal}
    (h : (Settings.counting n).start = .error refusal) :
    (session n).run "" =
      (.error (2, "invalid configuration: " ++ refusal.message ++ "\n"), lines opening) := by
  rw [session, opening_run, bind_run_of_error (expansion_run_of_refused opening h)]

/-- Asked for digits that words suffice for, the program prints them twice alike and succeeds. If
the first argument says no number it prints nothing, and if the number is refused no digits. -/
theorem run_agrees (arguments : List String) :
    (∀ n, Requests arguments n → 1 ≤ n.toNat → Admissible n →
      ∃ digits fraction : List Digit, Agreed n digits ∧
        fraction <+: digits.tail ∧ fraction.length = min (digits.length - 1) 28 ∧
        run arguments = ⟨0, lines (opening ++ agreement digits fraction), ""⟩) ∧
    ((∀ n, ¬ Requests arguments n) → ∃ errors, run arguments = ⟨2, "", errors⟩) ∧
    ∀ n, Requests arguments n → n = 0 ∨ Int64.maxValue.toInt < 10 * n.toNat →
      ∃ refusal, (Settings.counting n).start = .error refusal ∧
        run arguments =
          ⟨2, lines opening, "invalid configuration: " ++ refusal.message ++ "\n"⟩ := by
  refine ⟨?_, ?_, ?_⟩
  · intro n hrequests hn hadmissible
    have hagreed := agreed hadmissible hn
    refine ⟨_, _, hagreed, List.take_prefix 28 _, ?_, ?_⟩
    · rw [List.length_take, List.length_tail, Nat.min_comm]
    · rw [run, digitCount_eq_ok_iff.mpr hrequests]
      dsimp only
      rw [hagreed.session_run]
  · intro hnone
    cases hcount : digitCount arguments with
    | ok n => exact absurd (digitCount_eq_ok_iff.mp hcount) (hnone n)
    | error errors =>
      rw [run, hcount]
      exact ⟨errors, rfl⟩
  · intro n hrequests hrefused
    obtain ⟨refusal, hvalid⟩ := (Settings.validate_eq_error_iff (.counting n)).mpr hrefused
    have hstart := (Settings.start_eq_error_iff _).mpr hvalid
    refine ⟨refusal, hstart, ?_⟩
    rw [run, digitCount_eq_ok_iff.mpr hrequests]
    dsimp only
    rw [session_run_of_refused hstart]

theorem run_agrees_twelve :
    Requests ["+12", "x"] 12 ∧ 1 ≤ (12 : UInt64).toNat ∧ Admissible 12 ∧
      (∃ digits fraction : List Digit, Agreed 12 digits ∧
        fraction <+: digits.tail ∧ fraction.length = min (digits.length - 1) 28 ∧
        run ["+12", "x"] = ⟨0, lines (opening ++ agreement digits fraction), ""⟩) ∧
      (∀ n, ¬ Requests ["-12"] n) ∧ (∃ errors, run ["-12"] = ⟨2, "", errors⟩) ∧
      Requests ["0"] 0 ∧ ∃ errors, run ["0"] = ⟨2, lines opening, errors⟩ := by
  have htwelve : Requests ["+12", "x"] 12 := digitCount_eq_ok_iff.mp (by decide +kernel)
  have hzero : Requests ["0"] 0 := digitCount_eq_ok_iff.mp (by decide +kernel)
  have hnone : ∀ n, ¬ Requests ["-12"] n := by
    intro n hn
    have hcount : (digitCount ["-12"]).toOption = none := by decide +kernel
    rw [digitCount_eq_ok_iff.mpr hn] at hcount
    cases hcount
  have hgranted := (run_agrees ["+12", "x"]).1 12 htwelve (by decide) (by decide)
  obtain ⟨_, -, hrefused⟩ := (run_agrees ["0"]).2.2 0 hzero (.inl rfl)
  exact ⟨htwelve, by decide, by decide, hgranted, hnone, (run_agrees ["-12"]).2.1 hnone, hzero, _,
    hrefused⟩

end CommandLine

end PiDigits
