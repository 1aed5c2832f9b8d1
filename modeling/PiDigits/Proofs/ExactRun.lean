import PiDigits.Proofs.Calls
import PiDigits.Proofs.RadixPass
import PiDigits.Proofs.WaitingDigits

namespace PiDigits

def columnCount (n : ℕ) : ℕ := 10 * n / 3 + 1

structure Exact where
  policy : Policy
  columns : List ℕ
  waiting : Waiting
  carries : List ℕ
  /-- The digits that sweeps have released. -/
  settled : List Digit
  flushed : Bool
  pending : List Digit
  events : List Event

namespace Exact

def start (n : ℕ) : Exact where
  policy := default
  columns := List.replicate (columnCount n) 2
  waiting := .empty
  carries := []
  settled := []
  flushed := false
  pending := []
  events := []

def withPolicy (t : Exact) (policy : Policy) : Exact := { t with policy }

def output (t : Exact) : List Digit := t.settled ++ if t.flushed then t.waiting.front else []

def carry (t : Exact) : ℕ := (Radix.reduce t.columns).1

def digits (t : Exact) : List Digit := t.waiting.released t.carry

def emitted (sweep : ℕ) (digits : List Digit) : List Event :=
  if digits.isEmpty then [] else [.digitsEmitted sweep (Digit.row digits)]

def sweepEvents (t : Exact) : List Event :=
  .sweepCompleted (t.carries.length + 1) (Int64.ofNat t.carry) ::
    (if t.carry = 9 then
      [.nineBuffered (t.carries.length + 1) (Int64.ofNat (t.waiting.nines + 1))]
    else []) ++
    emitted (t.carries.length + 1) t.digits

def endEvents (t : Exact) : List Event :=
  emitted t.carries.length t.waiting.front ++
    [.finished t.carries.length (t.settled.length + t.waiting.front.length)]

def afterSweep (t : Exact) : Exact :=
  { t with
    columns := (Radix.reduce t.columns).2
    waiting := t.waiting.after t.policy t.carry
    carries := t.carries ++ [t.carry]
    settled := t.settled ++ t.digits
    events := t.events ++ t.sweepEvents }

def afterEnd (t : Exact) : Exact :=
  { t with flushed := true, events := t.events ++ t.endEvents }

def step (n : ℕ) (t : Exact) : Option (List Digit) × Exact :=
  if t.flushed then (none, t)
  else if t.carries.length < n then (some t.digits, t.afterSweep)
  else (some t.waiting.front, t.afterEnd)

def stepsLeft (n : ℕ) (t : Exact) : ℕ := n - t.carries.length + if t.flushed then 0 else 1

def advance (n : ℕ) (t : Exact) : Option (Option Digit) × Exact :=
  match t.pending with
  | digit :: rest => (some (some digit), { t with pending := rest })
  | [] =>
    if t.flushed then (some none, t)
    else (none, { (t.step n).2 with pending := (t.step n).1.getD [] })

theorem stepsLeft_step {n : ℕ} {t : Exact} (h : t.flushed = false) :
    (t.step n).2.stepsLeft n < t.stepsLeft n := by
  simp only [step, stepsLeft, h, Bool.false_eq_true, if_false]
  split
  · simp only [afterSweep, h, Bool.false_eq_true, if_false, List.length_append,
      List.length_singleton]
    omega
  · simp only [afterEnd, if_true]
    omega

theorem stepsLeft_advance {n : ℕ} {t t' : Exact} (h : t.advance n = (none, t')) :
    t'.stepsLeft n < t.stepsLeft n := by
  rw [advance] at h
  split at h
  · cases h
  · split at h
    · cases h
    · rename_i hf
      rw [Bool.not_eq_true] at hf
      cases h
      exact stepsLeft_step hf

def next (n : ℕ) (t : Exact) : Option Digit × Exact :=
  match _ : t.advance n with
  | (some digit?, t') => (digit?, t')
  | (none, t') => next n t'
termination_by t.stepsLeft n
decreasing_by exact stepsLeft_advance ‹_›

theorem next_of_some {n : ℕ} {t t' : Exact} {digit? : Option Digit}
    (h : t.advance n = (some digit?, t')) : t.next n = (digit?, t') := by
  rw [next]
  split
  · rename_i he
    rw [h] at he
    cases he
    rfl
  · rename_i he
    rw [h] at he
    cases he

theorem next_of_none {n : ℕ} {t t' : Exact} (h : t.advance n = (none, t')) :
    t.next n = t'.next n := by
  rw [next]
  split
  · rename_i he
    rw [h] at he
    cases he
  · rename_i he
    rw [h] at he
    cases he
    rfl

def take (n : ℕ) : (count : ℕ) → Exact → List Digit × Exact
  | 0, t => ([], t)
  | count + 1, t =>
    match t.next n with
    | (some digit, t) => (digit :: (take n count t).1, (take n count t).2)
    | (none, t) => ([], t)

def call (n : ℕ) : Call → Exact → Reply × Exact
  | .step, t => (.stepped (.ok (t.step n).1), (t.step n).2)
  | .next, t => (.handed (t.next n).1, (t.next n).2)
  | .withPolicy policy, t => (.policySet, t.withPolicy policy)

def calls (n : ℕ) : List Call → Exact → List Reply × Exact
  | [], t => ([], t)
  | c :: cs, t => ((t.call n c).1 :: (calls n cs (t.call n c).2).1, (calls n cs (t.call n c).2).2)

/-- A property that each part of a step keeps, and that does not look at the digits to hand out. -/
structure Kept (n : ℕ) (P : Exact → Prop) : Prop where
  sweep {t} : P t → t.flushed = false → t.carries.length < n → P t.afterSweep
  finish {t} : P t → t.flushed = false → n ≤ t.carries.length → P t.afterEnd
  pending {t} : P t → ∀ digits, P { t with pending := digits }

namespace Kept

variable {n : ℕ} {P : Exact → Prop} (h : Kept n P)

include h

theorem step {t : Exact} (ht : P t) : P (t.step n).2 := by
  rw [Exact.step]
  split
  · exact ht
  · rename_i hf
    rw [Bool.not_eq_true] at hf
    split
    · exact h.sweep ht hf ‹_›
    · exact h.finish ht hf (Nat.le_of_not_lt ‹_›)

theorem advance {t : Exact} (ht : P t) : P (t.advance n).2 := by
  rw [Exact.advance]
  split
  · exact h.pending ht _
  · split
    · exact ht
    · exact h.pending (h.step ht) _

theorem next {t : Exact} (ht : P t) : P (t.next n).2 := by
  fun_induction Exact.next n t with
  | case1 t digit? t' he =>
    have ht' := h.advance ht
    rwa [he] at ht'
  | case2 t t' he ih =>
    have ht' := h.advance ht
    rw [he] at ht'
    exact ih ht'

theorem take {t : Exact} (ht : P t) (count : ℕ) : P (t.take n count).2 := by
  induction count generalizing t with
  | zero => exact ht
  | succ count ih =>
    have hn := h.next ht
    rw [Exact.take]
    split
    · rename_i he
      rw [he] at hn
      exact ih hn
    · rename_i he
      rwa [he] at hn

theorem calls {t : Exact} (ht : P t) (hpolicy : ∀ t policy, P t → P (t.withPolicy policy))
    (cs : List Call) : P (t.calls n cs).2 := by
  induction cs generalizing t with
  | nil => exact ht
  | cons c cs ih =>
    apply ih
    cases c with
    | step => exact h.step ht
    | next => exact h.next ht
    | withPolicy policy => exact hpolicy t policy ht

end Kept

end Exact

end PiDigits
