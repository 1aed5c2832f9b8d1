import PiDigits.Machine.Scripted
import PiDigits.Proofs.StepOutcomes

/-!
Carries that are refused. A carry can be refused at three places, and at each of them nothing has
been changed yet: taking in a carry comes to the same when every change is made in place, and what
was changed before a fault stays changed.
-/

namespace PiDigits

variable {σ α β : Type}

namespace Held

/-- Work that changes held digits and an output as it goes. What it has changed stays changed when
a fault comes after it. -/
abbrev InPlace (σ : Type) := ExceptT Fault (StateT (Held × List Digit) (Work σ))

namespace InPlace

def onHeld (f : Held → Held) : InPlace σ Unit := modify fun (h, out) => (f h, out)

def push (digit : Digit) : InPlace σ Unit := modify fun (h, out) => (h, out ++ [digit])

def check (w : Word) : InPlace σ Digit := MonadExcept.ofExcept (Digit.ofWord w)

def letGo (h : Held) : InPlace σ Unit := do
  if h.holding then
    push (← check h.predigit)

def pushRun (m : Machine σ) (digit : Digit) : ℕ → Word → InPlace σ Unit
  | rounds, count => do
    if ← m.isPositive count then
      match rounds with
      | 0 => liftM (throw Violation.endlessLoop : Work σ Unit)
      | rounds + 1 =>
        push digit
        pushRun m digit rounds (← m.decrement count)
    else
      return

def settle (m : Machine σ) (carry nines : Word) : InPlace σ CarryKind := do
  onHeld ({ · with predigit := carry, holding := true })
  if ← m.holds (← m.greaterThan nines 0) then
    pushRun m .nine Machine.roundLimit nines
    onHeld ({ · with nines := 0 })
  return .settled

def classify (m : Machine σ) (policy : Policy) (carry : Word) : InPlace σ CarryKind := do
  let (h, _) ← get
  if ← m.holds (← m.equals carry 9) then
    let nines ← m.increment h.nines
    onHeld ({ · with nines })
    return .nine
  else if ← m.holds (← m.equals carry 10) then
    push (← check (← m.increment h.predigit))
    pushRun m .zero Machine.roundLimit h.nines
    if policy = .resetBoth then
      onHeld ({ · with predigit := 0 })
    onHeld ({ · with nines := 0, holding := true })
    return .ten
  else
    let _ ← check carry
    letGo h
    settle m carry h.nines

def runOn (x : InPlace σ α) (h : Held) (out : List Digit) :
    Work σ (Except Fault α × Held × List Digit) :=
  x.run.run (h, out)

variable {m : Machine σ} {h : Held} {out : List Digit}

theorem runOn_get_bind (f : Held × List Digit → InPlace σ β) :
    runOn (get >>= f) h out = runOn (f (h, out)) h out := rfl

theorem runOn_work_bind (w : Work σ α) (f : α → InPlace σ β) :
    runOn (liftM w >>= f) h out = w >>= fun a => runOn (f a) h out := by
  have hw : (liftM w : InPlace σ α).run.run (h, out) = w >>= fun a => pure (.ok a, h, out) := by
    change (ExceptT.lift (StateT.lift w)).run.run (h, out) = _
    simp
  rw [runOn, ExceptT.run_bind, StateT.run_bind, hw, bind_assoc]
  rfl

theorem runOn_onHeld_bind (g : Held → Held) (f : Unit → InPlace σ β) :
    runOn (onHeld g >>= f) h out = runOn (f ()) (g h) out := rfl

theorem runOn_push_bind (digit : Digit) (f : Unit → InPlace σ β) :
    runOn (push digit >>= f) h out = runOn (f ()) h (out ++ [digit]) := rfl

theorem runOn_check_bind (w : Word) (f : Digit → InPlace σ β) :
    runOn (check w >>= f) h out =
      match Digit.ofWord w with
      | .error fault => pure (.error fault, h, out)
      | .ok digit => runOn (f digit) h out := by
  rw [check]
  cases Digit.ofWord w <;> rfl

theorem runOn_letGo_bind (h' : Held) (f : Unit → InPlace σ β) :
    runOn (letGo h' >>= f) h out =
      match h'.front with
      | .error fault => pure (.error fault, h, out)
      | .ok front => runOn (f ()) h (out ++ front) := by
  rw [letGo, front]
  cases h'.holding with
  | false =>
    change runOn (f ()) h out = runOn (f ()) h (out ++ [])
    rw [List.append_nil]
  | true =>
    simp only [if_true, bind_assoc, runOn_check_bind, runOn_push_bind]
    cases Digit.ofWord h'.predigit <;> rfl

theorem runOn_pushRun_bind (digit : Digit) (rounds done : ℕ) (count : Word)
    (f : Unit → InPlace σ β) :
    runOn (pushRun m digit rounds count >>= f) h (out ++ List.replicate done digit) =
      countdown m rounds count done >>= fun k =>
        runOn (f ()) h (out ++ List.replicate k digit) := by
  -- the digits of the rounds already made stand in the output
  induction rounds generalizing count done with
  | zero =>
    rw [pushRun, countdown, bind_assoc, runOn_work_bind, bind_assoc]
    refine bind_congr fun positive => ?_
    cases positive <;> rfl
  | succ rounds ih =>
    rw [pushRun, countdown, bind_assoc, runOn_work_bind, bind_assoc]
    refine bind_congr fun positive => ?_
    cases positive with
    | false => rfl
    | true =>
      simp only [if_true, bind_assoc, runOn_push_bind, runOn_work_bind, List.append_assoc,
        ← List.replicate_succ', ih]

theorem runOn_run_bind (digit : Digit) (count : Word) (f : Unit → InPlace σ β) :
    runOn (pushRun m digit Machine.roundLimit count >>= f) h out =
      run m digit count >>= fun digits => runOn (f ()) h (out ++ digits) := by
  have hout : out = out ++ List.replicate 0 digit := (List.append_nil out).symm
  conv_lhs => rw [hout]
  rw [runOn_pushRun_bind, run, bind_assoc]
  simp only [pure_bind]

theorem runOn_settle (carry : Word) :
    runOn (settle m carry h.nines) h out = do
      if ← m.holds (← m.greaterThan h.nines 0) then
        let nines ← run m .nine h.nines
        return (.ok .settled, ⟨carry, 0, true⟩, out ++ nines)
      else
        return (.ok .settled, ⟨carry, h.nines, true⟩, out) := by
  rw [settle, runOn_onHeld_bind]
  simp only [runOn_work_bind]
  refine bind_congr fun _ => bind_congr fun some => ?_
  cases some with
  | true =>
    simp only [if_true, runOn_run_bind, runOn_onHeld_bind]
    rfl
  | false => rfl

theorem classify_eq (m : Machine σ) (policy : Policy) (carry : Word) (h : Held)
    (out : List Digit) :
    (classify m policy carry).runOn h out = h.classify m policy carry out := by
  rw [classify, Held.classify, runOn_get_bind]
  simp only [runOn_work_bind]
  refine bind_congr fun _ => bind_congr fun nine => ?_
  -- the machine is asked the same questions on both sides, so the cases are those of its answers
  cases nine with
  | true =>
    simp only [if_true, runOn_work_bind, runOn_onHeld_bind]
    rfl
  | false =>
    simp only [Bool.false_eq_true, if_false, runOn_work_bind]
    refine bind_congr fun _ => bind_congr fun ten => ?_
    cases ten with
    | true =>
      simp only [if_true, runOn_work_bind, runOn_check_bind, runOn_push_bind, runOn_run_bind]
      refine bind_congr fun next => ?_
      cases Digit.ofWord next with
      | error fault => rfl
      | ok raised =>
        refine bind_congr fun zeros => ?_
        rw [List.append_assoc]
        cases policy <;> rfl
    | false =>
      rw [if_neg Bool.false_ne_true, if_neg Bool.false_ne_true, runOn_check_bind]
      cases Digit.ofWord carry with
      | error fault => rfl
      | ok digit =>
        change runOn (letGo h >>= fun _ => settle m carry h.nines) h out = _
        rw [runOn_letGo_bind]
        cases h.front with
        | error fault => rfl
        | ok front => exact runOn_settle carry

end InPlace

variable {m : Machine σ} {policy : Policy} {carry : Word} {h h' : Held} {out out' : List Digit}
  {memory memory' : σ}

theorem classify_eq_error {fault : Fault}
    (hs : h.classify m policy carry out memory = .ok ((.error fault, h', out'), memory')) :
    h' = h ∧ out' = out ∧ ∃ v, fault = .digitOutOfRange v ∧ ¬ (0 ≤ v ∧ v ≤ 9) := by
  obtain ⟨digits, rfl, htakes⟩ := classify_takes hs
  cases htakes with
  | @refused v _ hdigit =>
    obtain ⟨hv, rfl⟩ := Digit.ofWord_eq_error hdigit
    exact ⟨rfl, List.append_nil out, v, rfl, hv⟩

theorem prefix_of_classify_eq_ok {kind : CarryKind}
    (hs : h.classify m policy carry out memory = .ok ((.ok kind, h', out'), memory')) :
    out <+: out' := by
  obtain ⟨digits, rfl, -⟩ := classify_takes hs
  exact List.prefix_append out digits

end Held

namespace Spigot

structure SameButColumns (s s' : Spigot σ) : Prop where
  held : s'.held = s.held
  sweepsCompleted : s'.sweepsCompleted = s.sweepsCompleted
  digitsReleased : s'.digitsReleased = s.digitsReleased
  flushed : s'.flushed = s.flushed
  pending : s'.pending = s.pending
  fault? : s'.fault? = s.fault?
  events : s'.events = s.events
  others : s' = { s with memory := s'.memory, columns := s'.columns }

theorem SameButColumns.of_eq {s : Spigot σ} (memory : σ) (columns : Columns) :
    SameButColumns s { s with memory, columns } :=
  ⟨rfl, rfl, rfl, rfl, rfl, rfl, rfl, rfl⟩

theorem refused_changes_columns_only :
    (∀ (σ : Type) (m : Machine σ) (policy : Policy) (carry : Word) (h : Held) (out : List Digit),
      (Held.InPlace.classify m policy carry).runOn h out = h.classify m policy carry out) ∧
    (∀ (σ : Type) (m : Machine σ) (policy : Policy) (carry : Word) (h h' : Held)
        (out out' : List Digit) (kind : Except Fault CarryKind) (memory memory' : σ),
      h.classify m policy carry out memory = .ok ((kind, h', out'), memory') →
        match kind with
        | .error fault =>
          h' = h ∧ out' = out ∧ ∃ v, fault = .digitOutOfRange v ∧ ¬ (0 ≤ v ∧ v ≤ 9)
        | .ok _ => out <+: out') ∧
    ∀ (σ : Type) (s s' : Spigot σ) (fault : Fault), step s = .ok (.error fault) s' →
      (∃ v, fault = .digitOutOfRange v ∧ ¬ (0 ≤ v ∧ v ≤ 9)) ∧ SameButColumns s s' := by
  refine ⟨?_, ?_, ?_⟩
  · intro σ m policy carry h out
    exact Held.InPlace.classify_eq m policy carry h out
  · intro σ m policy carry h h' out out' kind memory memory' hs
    cases kind with
    | error fault => exact Held.classify_eq_error hs
    | ok kind => exact Held.prefix_of_classify_eq_ok hs
  · intro σ s s' fault hs
    obtain ⟨hfault, memory, columns, rfl⟩ := (step_stepped hs).of_error
    exact ⟨hfault, .of_eq memory columns⟩

/-- Gives five carries of the expansion and then one that is no digit. -/
def derailed : List Script.Rule := [⟨.divide, none, some 10, .inTurn [3, 1, 4, 1, 5, 11]⟩]

theorem refused_changes_columns_only_derailed :
    (∃ h' out' memory', (Held.pending 9 2).classify .native .keepPredigit 10 [⟨4⟩] () =
        .ok ((.error (.digitOutOfRange 10), h', out'), memory') ∧
      h' = .pending 9 2 ∧ out' = [⟨4⟩]) ∧
    (∃ h' out' memory', (Held.pending 4 3).classify .native .resetBoth 5 [⟨1⟩] () =
        .ok ((.ok .settled, h', out'), memory') ∧ [⟨1⟩] <+: out') ∧
    ∃ s replies s₅ s₆, start (.scripted "Derailed" .native) ((), derailed) 6 = .ok s ∧
      performAll (.replicate 5 .step) s = .ok replies s₅ ∧
      step s₅ = .ok (.error (.digitOutOfRange 11)) s₆ ∧ s₆.columns ≠ s₅.columns ∧
      SameButColumns s₅ s₆ := by
  refine ⟨?_, ?_, ?_⟩
  · have h : (Held.pending 9 2).classify .native .keepPredigit 10 [⟨4⟩] () =
        .ok ((.error (.digitOutOfRange 10), .pending 9 2, [⟨4⟩]), ()) := rfl
    obtain ⟨hh, hout, -⟩ := refused_changes_columns_only.2.1 _ _ _ _ _ _ _ _ _ _ _ h
    exact ⟨_, _, _, h, hh, hout⟩
  · have h : (Held.pending 4 3).classify .native .resetBoth 5 [⟨1⟩] () =
        .ok ((.ok .settled, .pending 5 0, [⟨1⟩, ⟨4⟩, ⟨9⟩, ⟨9⟩, ⟨9⟩]), ()) := rfl
    exact ⟨_, _, _, h, refused_changes_columns_only.2.1 _ _ _ _ _ _ _ _ _ _ _ h⟩
  · have hrun : (match start (.scripted "Derailed" .native) ((), derailed) 6 with
        | .ok s =>
          match performAll (.replicate 5 .step) s with
          | .ok _ s₅ =>
            match step s₅ with
            | .ok (.error fault) s₆ =>
              decide (fault = .digitOutOfRange 11 ∧ s₆.columns ≠ s₅.columns)
            | _ => false
          | .error _ _ => false
        | .error _ => false) = true := by
      decide +kernel
    split at hrun
    · split at hrun
      · split at hrun
        · obtain ⟨rfl, hcolumns⟩ := of_decide_eq_true hrun
          have hsame := (refused_changes_columns_only.2.2 _ _ _ _ ‹_›).2
          exact ⟨_, _, _, _, ‹_›, ‹_›, ‹_›, hcolumns, hsame⟩
        · cases hrun
      · cases hrun
    · cases hrun

end Spigot

end PiDigits
