import PiDigits.Proofs.Calls
import PiDigits.Proofs.MachineAgreement

/-!
What a step can do on a machine of any kind, right or wrong, as long as it meets no violation. The
machine decides which of these things is done, but none beside them.
-/

namespace PiDigits

open Work

variable {σ α : Type}

namespace Digit

variable {w : Word} {d : Digit} {fault : Fault}

theorem ofWord_eq_ok (h : ofWord w = .ok d) : (0 ≤ w ∧ w ≤ 9) ∧ d = ⟨w.toCount.toUInt8⟩ := by
  rw [ofWord, ofWord?] at h
  by_cases hw : 0 ≤ w ∧ w ≤ 9
  · rw [if_pos hw] at h
    cases h
    exact ⟨hw, rfl⟩
  · rw [if_neg hw] at h
    cases h

theorem ofWord_eq_error (h : ofWord w = .error fault) :
    ¬ (0 ≤ w ∧ w ≤ 9) ∧ fault = .digitOutOfRange w := by
  rw [ofWord, ofWord?] at h
  by_cases hw : 0 ≤ w ∧ w ≤ 9
  · rw [if_pos hw] at h
    cases h
  · rw [if_neg hw] at h
    cases h
    exact ⟨hw, rfl⟩

end Digit

namespace Held

/-- What a carry can do to the digits that wait, with the digits that it settles. Whether it counts
as a nine, a ten or neither is for the machine to say, and so is how many nines there are. -/
inductive Takes (policy : Policy) (carry : Word) (h : Held) :
    Except Fault CarryKind → Held → List Digit → Prop
  | nine (nines : Word) : Takes policy carry h (.ok .nine) { h with nines } []
  | ten {next : Word} {raised : Digit} (count : ℕ) : Digit.ofWord next = .ok raised →
    Takes policy carry h (.ok .ten) ⟨if policy = .resetBoth then 0 else h.predigit, 0, true⟩
      (raised :: List.replicate count .zero)
  | settled {digit : Digit} {front : List Digit} (count : ℕ) (nines : Word) :
    Digit.ofWord carry = .ok digit → h.front = .ok front →
    Takes policy carry h (.ok .settled) ⟨carry, nines, true⟩ (front ++ List.replicate count .nine)
  | refused {w : Word} {fault : Fault} : Digit.ofWord w = .error fault →
    Takes policy carry h (.error fault) h []

variable {m : Machine σ} {policy : Policy} {carry : Word} {h h' : Held} {out out' : List Digit}
  {kind : Except Fault CarryKind} {memory memory' : σ}

theorem run_eq_ok {digit : Digit} {count : Word} {digits : List Digit}
    (hs : run m digit count memory = .ok (digits, memory')) :
    ∃ k, digits = List.replicate k digit := by
  obtain ⟨k, memory₁, -, hs⟩ := of_bind_eq_ok hs
  cases hs
  exact ⟨k, rfl⟩

theorem front_eq_error {fault : Fault} (hf : h.front = .error fault) :
    Digit.ofWord h.predigit = .error fault := by
  rw [front] at hf
  split at hf
  · cases hd : Digit.ofWord h.predigit with
    | error fault' =>
      rw [hd] at hf
      cases hf
      rfl
    | ok digit =>
      rw [hd] at hf
      cases hf
  · cases hf

theorem classify_takes (hs : h.classify m policy carry out memory = .ok ((kind, h', out'), memory')) :
    ∃ digits, out' = out ++ digits ∧ h.Takes policy carry kind h' digits := by
  obtain ⟨_, memory₁, -, hs⟩ := of_bind_eq_ok hs
  obtain ⟨nine, memory₂, -, hs⟩ := of_bind_eq_ok hs
  cases nine with
  | true =>
    obtain ⟨nines, memory₃, -, hs⟩ := of_bind_eq_ok hs
    cases hs
    exact ⟨[], (List.append_nil _).symm, .nine nines⟩
  | false =>
    obtain ⟨_, memory₃, -, hs⟩ := of_bind_eq_ok hs
    obtain ⟨ten, memory₄, -, hs⟩ := of_bind_eq_ok hs
    cases ten with
    | true =>
      obtain ⟨next, memory₅, -, hs⟩ := of_bind_eq_ok hs
      cases hraised : Digit.ofWord next with
      | error fault =>
        rw [hraised] at hs
        cases hs
        exact ⟨[], (List.append_nil _).symm, .refused hraised⟩
      | ok raised =>
        rw [hraised] at hs
        obtain ⟨zeros, memory₆, hrun, hs⟩ := of_bind_eq_ok hs
        obtain ⟨count, rfl⟩ := run_eq_ok hrun
        cases hs
        exact ⟨_, rfl, .ten count hraised⟩
    | false =>
      simp only [Bool.false_eq_true, if_false] at hs
      cases hdigit : Digit.ofWord carry with
      | error fault =>
        rw [hdigit] at hs
        cases hs
        exact ⟨[], (List.append_nil _).symm, .refused hdigit⟩
      | ok digit =>
        rw [hdigit] at hs
        cases hfront : h.front with
        | error fault =>
          rw [hfront] at hs
          cases hs
          exact ⟨[], (List.append_nil _).symm, .refused (front_eq_error hfront)⟩
        | ok front =>
          rw [hfront] at hs
          obtain ⟨_, memory₅, -, hs⟩ := of_bind_eq_ok hs
          obtain ⟨some, memory₆, -, hs⟩ := of_bind_eq_ok hs
          cases some with
          | true =>
            obtain ⟨nines, memory₇, hrun, hs⟩ := of_bind_eq_ok hs
            obtain ⟨count, rfl⟩ := run_eq_ok hrun
            cases hs
            exact ⟨_, List.append_assoc _ _ _, .settled count 0 hdigit hfront⟩
          | false =>
            cases hs
            have hsettled : h.Takes policy carry (.ok .settled) ⟨carry, h.nines, true⟩
                (front ++ List.replicate 0 .nine) := .settled 0 h.nines hdigit hfront
            exact ⟨front, rfl, by simpa using hsettled⟩

end Held

namespace Spigot

variable {s s' : Spigot σ}

theorem bind_of_ok {β : Type} {x : Action σ α} {f : α → Action σ β} {a : α} (h : x s = .ok a s') :
    (x >>= f) s = f a s' := by
  simp only [Bind.bind, EStateM.bind, h]

theorem get_bind {f : Spigot σ → Action σ α} : (get >>= f) s = f s s := rfl

theorem of_work_eq_ok {w : Machine σ → Work σ α} {a : α} (h : work w s = .ok a s') :
    ∃ memory, w s.machine s.memory = .ok (a, memory) ∧ s' = { s with memory } := by
  rw [work] at h
  split at h
  · cases h
    exact ⟨_, ‹_›, rfl⟩
  · cases h

theorem of_ofExcept_eq_ok {x : Except Violation α} {a : α}
    (h : (MonadExcept.ofExcept x : Action σ α) s = .ok a s') : x = .ok a ∧ s' = s := by
  cases x with
  | error violation => cases h
  | ok b =>
    cases h
    exact ⟨rfl, rfl⟩

theorem start_eq_ok {m : Machine σ} {memory : σ} {digitCount : UInt64}
    (h : start m memory digitCount = .ok s) :
    ∃ memory' columns, s = {
      machine := m
      memory := memory'
      digitCount := Word.ofCount digitCount
      policy := default
      columns
      held := .empty
      nextSweep := 1
      flushed := false
      pending := []
      digitsReleased := 0
      fault? := none
      journal := #[.created digitCount columns.size m.name] } := by
  simp only [start, Bind.bind, Except.bind] at h
  split at h
  · cases h
  split at h
  · cases h
  split at h
  · cases h
  split at h
  · cases h
  · cases h
    exact ⟨_, _, rfl⟩

def sweepNotices (sweep : ℕ) (carry : Word) (kind : CarryKind) (nines : Word)
    (digits : List Digit) : List Notice :=
  [.swept sweep carry kind, .published (.sweepCompleted sweep carry)] ++
    (if kind = .nine then [.published (.nineBuffered sweep nines)] else []) ++
    released sweep digits

def endNotices (s : Spigot σ) (sweeps : ℕ) (digits : List Digit) : List Notice :=
  (if 0 < s.held.nines then [.ninesLeft s.held.nines] else []) ++
    .ended sweeps (s.digitsReleased + digits.length) s.machine.name ::
    (released sweeps digits ++
      [.published (.finished sweeps (s.digitsReleased + digits.length))])

inductive Stepped (s : Spigot σ) : Except Fault (Option (List Digit)) → Spigot σ → Prop
  | idle : s.flushed = true → Stepped s (.ok none) s
  | refused {w : Word} {fault : Fault} (memory : σ) (columns : Columns) : s.flushed = false →
    Digit.ofWord w = .error fault → Stepped s (.error fault) { s with memory, columns }
  | swept {carry nextSweep : Word} {kind : CarryKind} {held : Held} {digits : List Digit}
      {journal : Array Notice} (memory : σ) (columns : Columns) : s.flushed = false →
    s.held.Takes s.policy carry (.ok kind) held digits →
    journal.toList = s.journal.toList ++
      sweepNotices s.nextSweep.toCount.toNat carry kind held.nines digits →
    Stepped s (.ok (some digits)) { s with
      memory, columns, held, nextSweep, journal
      digitsReleased := s.digitsReleased + digits.length }
  | ended {sweeps : ℕ} {digits : List Digit} {journal : Array Notice} (memory : σ) :
    s.flushed = false → s.held.flush [] = .ok digits → s.sweepsCompleted = .ok sweeps →
    journal.toList = s.journal.toList ++ s.endNotices sweeps digits →
    Stepped s (.ok (some digits)) { s with
      memory, journal
      flushed := true
      digitsReleased := s.digitsReleased + digits.length }

theorem sweepsRemain_eq_ok {remain : Bool} (h : sweepsRemain s = .ok remain s') :
    ∃ memory, s' = { s with memory } := by
  obtain ⟨_, _, hget, h⟩ := of_bind_eq_ok h
  cases hget
  obtain ⟨memory, -, rfl⟩ := of_work_eq_ok h
  exact ⟨memory, rfl⟩

theorem reducedCarry_eq_ok {carry : Word} (h : reducedCarry s = .ok carry s') :
    ∃ memory columns, s' = { s with memory, columns } := by
  obtain ⟨_, _, hget, h⟩ := of_bind_eq_ok h
  cases hget
  obtain ⟨⟨carry₁, columns₁⟩, _, hsweep, h⟩ := of_bind_eq_ok h
  obtain ⟨memory₁, -, rfl⟩ := of_work_eq_ok hsweep
  cases hunreduced : columns₁.firstUnreduced? with
  | some position =>
    simp only [hunreduced] at h
    cases h
  | none =>
    simp only [hunreduced] at h
    obtain ⟨_, _, hset, h⟩ := of_bind_eq_ok h
    cases hset
    obtain ⟨extracted, _, hextract, h⟩ := of_bind_eq_ok h
    obtain ⟨memory₂, -, rfl⟩ := of_work_eq_ok hextract
    obtain ⟨_, _, hset, h⟩ := of_bind_eq_ok h
    cases hset
    cases h
    exact ⟨memory₂, extracted.2, rfl⟩

theorem flush_eq_error {h : Held} {fault : Fault} (hf : h.flush [] = .error fault) :
    Digit.ofWord h.predigit = .error fault := by
  rw [Held.flush] at hf
  cases hfront : h.front with
  | error fault' =>
    rw [hfront] at hf
    cases hf
    exact Held.front_eq_error hfront
  | ok digits =>
    rw [hfront] at hf
    cases hf

theorem finish_stepped {memory : σ} {result : Except Fault (List Digit)} (hf : s.flushed = false)
    (h : finish { s with memory } = .ok result s') : Stepped s (result.map some) s' := by
  obtain ⟨_, _, hget, h⟩ := of_bind_eq_ok h
  cases hget
  cases hflush : s.held.flush [] with
  | error fault =>
    simp only [hflush] at h
    cases h
    exact .refused memory s.columns hf (flush_eq_error hflush)
  | ok digits =>
    simp only [hflush] at h
    obtain ⟨_, _, hset, h⟩ := of_bind_eq_ok h
    cases hset
    obtain ⟨sweeps, _, hcompleted, h⟩ := of_bind_eq_ok h
    obtain ⟨hsweeps, rfl⟩ := of_ofExcept_eq_ok hcompleted
    split at h
    · cases h
      refine .ended memory hf hflush hsweeps ?_
      simp [endNotices, *]
    · cases h
      refine .ended memory hf hflush hsweeps ?_
      simp [endNotices, *]

theorem sweepOnce_stepped {memory : σ} {result : Except Fault (List Digit)}
    (hf : s.flushed = false) (h : sweepOnce { s with memory } = .ok result s') :
    Stepped s (result.map some) s' := by
  obtain ⟨_, _, hget, h⟩ := of_bind_eq_ok h
  cases hget
  obtain ⟨carry, _, hcarry, h⟩ := of_bind_eq_ok h
  obtain ⟨memory₁, columns, rfl⟩ := reducedCarry_eq_ok hcarry
  obtain ⟨⟨kind, held, digits⟩, _, hwork, h⟩ := of_bind_eq_ok h
  obtain ⟨memory₂, hclassify, rfl⟩ := of_work_eq_ok hwork
  obtain ⟨_, rfl, htakes⟩ := Held.classify_takes hclassify
  obtain ⟨_, _, hset, h⟩ := of_bind_eq_ok h
  cases hset
  cases kind with
  | error fault =>
    cases h
    cases htakes with
    | refused hw => exact .refused memory₂ columns hf hw
  | ok kind =>
    obtain ⟨nextSweep, _, hnext, h⟩ := of_bind_eq_ok h
    obtain ⟨memory₃, -, rfl⟩ := of_work_eq_ok hnext
    obtain ⟨_, _, hset, h⟩ := of_bind_eq_ok h
    cases hset
    obtain ⟨_, _, hreport, h⟩ := of_bind_eq_ok h
    cases hreport
    split at h
    · cases h
      refine .swept memory₃ columns hf htakes ?_
      simp [sweepNotices, *]
    · cases h
      refine .swept memory₃ columns hf htakes ?_
      simp [sweepNotices, *]

theorem step_stepped {result : Except Fault (Option (List Digit))} (h : step s = .ok result s') :
    Stepped s result s' := by
  obtain ⟨_, _, hget, h⟩ := of_bind_eq_ok h
  cases hget
  by_cases hf : s.flushed = true
  · rw [if_pos hf] at h
    cases h
    exact .idle hf
  rw [if_neg hf] at h
  rw [Bool.not_eq_true] at hf
  obtain ⟨remain, _, hremain, h⟩ := of_bind_eq_ok h
  obtain ⟨memory, rfl⟩ := sweepsRemain_eq_ok hremain
  cases remain with
  | true =>
    obtain ⟨swept, _, hsweep, h⟩ := of_bind_eq_ok h
    cases h
    exact sweepOnce_stepped hf hsweep
  | false =>
    obtain ⟨finished, _, hfinish, h⟩ := of_bind_eq_ok h
    cases h
    exact finish_stepped hf hfinish

namespace Stepped

variable {result : Except Fault (Option (List Digit))} (h : Stepped s result s')

include h

theorem pending : s'.pending = s.pending := by
  cases h <;> rfl

theorem fault? : s'.fault? = s.fault? := by
  cases h <;> rfl

end Stepped

theorem Stepped.of_error {fault : Fault} (h : Stepped s (.error fault) s') :
    (∃ v, fault = .digitOutOfRange v ∧ ¬ (0 ≤ v ∧ v ≤ 9)) ∧
      ∃ memory columns, s' = { s with memory, columns } := by
  cases h with
  | @refused v _ memory columns hf hw =>
    obtain ⟨hv, rfl⟩ := Digit.ofWord_eq_error hw
    exact ⟨⟨v, rfl, hv⟩, memory, columns, rfl⟩

def drawn : Except Fault (Option (List Digit)) → Spigot σ → Spigot σ
  | .error fault, s => { s with journal := s.journal ++ [Notice.aborted fault], fault? := some fault }
  | .ok none, s => s
  | .ok (some digits), s => { s with pending := digits }

theorem events_drawn (result : Except Fault (Option (List Digit))) (s : Spigot σ) :
    (drawn result s).events = s.events := by
  match result with
  | .ok (some digits) => rfl
  | .ok none => rfl
  | .error fault => simp [drawn, events, Notice.event?]

theorem digitsReleased_drawn (result : Except Fault (Option (List Digit))) (s : Spigot σ) :
    (drawn result s).digitsReleased = s.digitsReleased := by
  match result with
  | .ok (some digits) => rfl
  | .ok none => rfl
  | .error fault => rfl

theorem flushed_drawn (result : Except Fault (Option (List Digit))) (s : Spigot σ) :
    (drawn result s).flushed = s.flushed := by
  match result with
  | .ok (some digits) => rfl
  | .ok none => rfl
  | .error fault => rfl

def drawnAnswer : Except Fault (Option (List Digit)) → Option (Option Digit)
  | .ok (some _) => none
  | _ => some none

inductive Advanced (s : Spigot σ) : Option (Option Digit) → Spigot σ → Prop
  | handed {digit : Digit} {pending : List Digit} : s.pending = digit :: pending →
    Advanced s (some (some digit)) { s with pending }
  | stopped {fault : Fault} : s.pending = [] → s.fault? = some fault → Advanced s (some none) s
  | drawn {result : Except Fault (Option (List Digit))} {s' : Spigot σ} : s.pending = [] →
    s.fault? = none → step s = .ok result s' → Advanced s (drawnAnswer result) (drawn result s')

theorem advance_advanced {answer : Option (Option Digit)} (h : advance s = .ok answer s') :
    Advanced s answer s' := by
  obtain ⟨_, _, hget, h⟩ := of_bind_eq_ok h
  cases hget
  cases hp : s.pending with
  | cons digit pending =>
    simp only [hp] at h
    cases h
    exact .handed hp
  | nil =>
    cases hf : s.fault? with
    | some fault =>
      simp only [hp, hf] at h
      cases h
      exact .stopped hp hf
    | none =>
      simp only [hp, hf] at h
      obtain ⟨result, s₁, hstep, h⟩ := of_bind_eq_ok h
      cases result with
      | error fault =>
        cases h
        exact .drawn hp hf hstep
      | ok digits? =>
        cases digits? <;>
        · cases h
          exact .drawn hp hf hstep

end Spigot

end PiDigits
