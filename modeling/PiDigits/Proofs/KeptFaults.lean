import PiDigits.Machine.Scripted
import PiDigits.Proofs.StepsMade

namespace PiDigits.Spigot

variable {σ : Type} {m : Machine σ} {s s' : Spigot σ} {calls : List Call} {replies : List Reply}

/-- After a step that fails its fault is the one kept, no digit is released and no event is
published, and what is collected is the fault. -/
def StopsAtFault (calls : List Call) (s s' : Spigot σ) : Prop :=
  ∀ made ∈ madeAll calls s, ∀ fault, made.result = .error fault →
    s'.fault? = some fault ∧ s'.digitsReleased = made.after.digitsReleased ∧
      s'.events = made.after.events ∧ ∃ s'', collect s' = .ok (.error fault) s''

structure Latched (made : List (Made σ)) (s : Spigot σ) : Prop where
  pending : s.fault? ≠ none → s.pending = []
  fault? : ∀ m ∈ made, m.inside = true → ∀ fault, m.result = .error fault →
    s.fault? = some fault
  own : made.Pairwise fun m later => m.inside = true → ∀ fault, m.result = .error fault →
    later.inside = false
  last : ∀ m, made.getLast? = some m →
    s.digitsReleased = m.after.digitsReleased ∧ s.events = m.after.events

namespace Latched

variable {made : List (Made σ)} {result : Except Fault (Option (List Digit))} (h : Latched made s)

include h

theorem step (hstep : step s = .ok result s') : Latched (made ++ [⟨false, s, result, s'⟩]) s' := by
  have hstepped := step_stepped hstep
  refine ⟨?_, ?_, ?_, ?_⟩
  · rw [hstepped.fault?, hstepped.pending]
    exact h.pending
  · intro m hm hinside fault hfault
    rw [hstepped.fault?]
    rcases List.mem_append.1 hm with hm | hm
    · exact h.fault? m hm hinside fault hfault
    · rw [List.mem_singleton.1 hm] at hinside
      cases hinside
  · refine List.pairwise_append.2 ⟨h.own, List.pairwise_singleton _ _, ?_⟩
    intro m _ later hlater _ _ _
    rw [List.mem_singleton.1 hlater]
  · intro m hm
    rw [List.getLast?_concat] at hm
    cases hm
    exact ⟨rfl, rfl⟩

theorem drawn (hpending : s.pending = []) (hnone : s.fault? = none)
    (hstep : Spigot.step s = .ok result s') :
    Latched (made ++ [⟨true, s, result, s'⟩]) (drawn result s') := by
  have hstepped := step_stepped hstep
  -- no step inside `next` has failed before: its fault would be kept
  have hfine : ∀ m ∈ made, m.inside = true → ∀ fault, m.result ≠ .error fault := by
    intro m hm hinside fault hfault
    rw [h.fault? m hm hinside fault hfault] at hnone
    cases hnone
  refine ⟨?_, ?_, ?_, ?_⟩
  · intro hsome
    match result with
    | .ok (some digits) => exact (hsome (hstepped.fault?.trans hnone)).elim
    | .ok none => exact hstepped.pending.trans hpending
    | .error fault => exact hstepped.pending.trans hpending
  · intro m hm hinside fault hfault
    rcases List.mem_append.1 hm with hm | hm
    · exact (hfine m hm hinside fault hfault).elim
    · rw [List.mem_singleton.1 hm] at hfault
      cases hfault
      rfl
  · refine List.pairwise_append.2 ⟨h.own, List.pairwise_singleton _ _, ?_⟩
    intro m hm later _ hinside fault hfault
    exact (hfine m hm hinside fault hfault).elim
  · intro m hm
    rw [List.getLast?_concat] at hm
    cases hm
    exact ⟨digitsReleased_drawn result s', events_drawn result s'⟩

theorem hand {digit : Digit} {pending : List Digit} (hpending : s.pending = digit :: pending) :
    Latched made { s with pending } := by
  refine ⟨fun hsome => ?_, h.fault?, h.own, h.last⟩
  rw [h.pending hsome] at hpending
  cases hpending

end Latched

theorem kept_latched : Kept fun (made : List (Made σ)) _ s => Latched made s where
  step h hstep := h.step hstep
  drawn h hpending hnone hstep := h.drawn hpending hnone hstep
  hand h hpending := h.hand hpending
  withPolicy h _ := { h with }

theorem latched_start {memory : σ} {digitCount : UInt64} (h : start m memory digitCount = .ok s) :
    Latched [] s := by
  obtain ⟨memory', columns, rfl⟩ := start_eq_ok h
  refine ⟨fun _ => rfl, ?_, .nil, ?_⟩
  · intro m hm
    cases hm
  · intro m hm
    cases hm

theorem advance_fault {fault : Fault} (hp : s.pending = []) (hf : s.fault? = some fault) :
    advance s = .ok (some none) s := by
  rw [advance, get_bind, hp, hf]
  rfl

theorem roundLimit_eq : Machine.roundLimit = 0x7ffffffffffffffe + 1 := rfl

theorem next_fault {fault : Fault} (hp : s.pending = []) (hf : s.fault? = some fault) :
    next s = .ok none s := by
  rw [next, roundLimit_eq, nextWithin, bind_of_ok (advance_fault hp hf)]
  rfl

theorem collect_fault {fault : Fault} (hp : s.pending = []) (hf : s.fault? = some fault) :
    collect s = .ok (.error fault) s := by
  have hrest : rest s = .ok [] s := by
    rw [rest, take, roundLimit_eq, takeAfter, bind_of_ok (next_fault hp hf)]
    rfl
  rw [collect, bind_of_ok hrest, get_bind, hf]
  rfl

structure Stopped (fault : Fault) (made : Made σ) (later : List (Made σ)) (s : Spigot σ) :
    Prop where
  fault? : s.fault? = some fault
  next : next s = .ok none s
  collect : collect s = .ok (.error fault) s
  own : ∀ m ∈ later, m.inside = false
  silent : later = [] →
    s.digitsReleased = made.after.digitsReleased ∧ s.events = made.after.events

theorem Latched.stopped {front later : List (Made σ)} {made : Made σ} {fault : Fault}
    (h : Latched (front ++ made :: later) s) (hinside : made.inside = true)
    (hfault : made.result = .error fault) : Stopped fault made later s := by
  have hkept : s.fault? = some fault := h.fault? made (by simp) hinside fault hfault
  have hpending : s.pending = [] := h.pending (by simp [hkept])
  have hlater := (List.pairwise_cons.1 (List.pairwise_append.1 h.own).2.1).1
  refine ⟨hkept, next_fault hpending hkept, collect_fault hpending hkept, ?_, ?_⟩
  · intro m hm
    exact hlater m hm hinside fault hfault
  · rintro rfl
    exact h.last made List.getLast?_concat

theorem inside_of_step_notMem {made : Made σ} (h : performAll calls s = .ok replies s')
    (hcalls : Call.step ∉ calls) (hmade : made ∈ madeAll calls s) : made.inside = true := by
  have hown := (own_steps h).1
  rw [List.count_eq_zero.2 hcalls, List.length_eq_zero_iff, List.filter_eq_nil_iff] at hown
  simpa using hown made hmade

theorem Latched.stopsAtFault (hlatched : Latched (madeAll calls s) s')
    (h : performAll calls s = .ok replies s') (hcalls : Call.step ∉ calls) :
    StopsAtFault calls s s' := by
  intro made hmade fault hfault
  have hinside := inside_of_step_notMem h hcalls hmade
  obtain ⟨front, later, hsplit⟩ := List.append_of_mem hmade
  rw [hsplit] at hlatched
  have hstopped := hlatched.stopped hinside hfault
  -- all steps are made inside `next`, so none comes after the one that fails
  have hlater : later = [] := by
    rw [List.eq_nil_iff_forall_not_mem]
    intro m hm
    have hm' : m ∈ madeAll calls s := by simp [hsplit, hm]
    have hown := hstopped.own m hm
    rw [inside_of_step_notMem h hcalls hm'] at hown
    cases hown
  obtain ⟨hreleased, hevents⟩ := hstopped.silent hlater
  exact ⟨hstopped.fault?, hreleased, hevents, s', hstopped.collect⟩

theorem performAll_fault {memory : σ} {digitCount : UInt64} (hs : start m memory digitCount = .ok s)
    (h : performAll calls s = .ok replies s') :
    (∀ made ∈ madeAll calls s, ∀ fault, made.result = .error fault →
      (∃ v, fault = .digitOutOfRange v ∧ ¬ (0 ≤ v ∧ v ≤ 9)) ∧
        ∃ memory columns, made.after = { made.before with memory, columns }) ∧
    (∀ front made later fault, madeAll calls s = front ++ made :: later → made.inside = true →
      made.result = .error fault → Stopped fault made later s') ∧
    (Call.step ∉ calls → StopsAtFault calls s s') := by
  have hlatched : Latched (madeAll calls s) s' := kept_latched.run (latched_start hs) h
  refine ⟨?_, ?_, hlatched.stopsAtFault h⟩
  · intro made hmade fault hfault
    have hstepped := step_stepped (step_of_mem_madeAll hmade)
    rw [hfault] at hstepped
    exact hstepped.of_error
  · intro front made later fault hsplit hinside hfault
    rw [hsplit] at hlatched
    exact hlatched.stopped hinside hfault

/-- Gives one carry that is no digit. -/
def overshooting : Machine (Unit × List Script.Rule) := .scripted "Overshooting" .native

def overshoot : List Script.Rule := [⟨.divide, none, some 10, .inTurn [11]⟩]

theorem performAll_fault_overshooting :
    ∃ s replies s', start overshooting ((), overshoot) 5 = .ok s ∧
      performAll [.next, .next] s = .ok replies s' ∧ s'.fault? = some (.digitOutOfRange 11) ∧
      StopsAtFault [.next, .next] s s' := by
  have hrun : (match start overshooting ((), overshoot) 5 with
      | .ok s =>
        match performAll [.next, .next] s with
        | .ok _ s' => decide (s'.fault? = some (.digitOutOfRange 11))
        | .error _ _ => false
      | .error _ => false) = true := by
    decide +kernel
  split at hrun
  · split at hrun
    · have h := (performAll_fault ‹_› ‹_›).2.2 (by decide)
      exact ⟨_, _, _, ‹_›, ‹_›, of_decide_eq_true hrun, h⟩
    · cases hrun
  · cases hrun

/-- A step of the caller's own that fails is not noticed later: the digits collected after it lack
the first. -/
theorem not_stopsAtFault :
    ∃ s fault s' expansion s'', start overshooting ((), overshoot) 5 = .ok s ∧
      performAll [.step] s = .ok [.stepped (.error fault)] s' ∧ ¬ StopsAtFault [.step] s s' ∧
      collect s' = .ok (.ok expansion) s'' ∧ Digit.row expansion.digits = "14158" := by
  have hrun : (match start overshooting ((), overshoot) 5 with
      | .ok s =>
        match step s with
        | .ok result s' => !result.isOk && match collect s' with
          | .ok expansion _ => expansion.toOption.any fun e => Digit.row e.digits = "14158"
          | .error _ _ => false
        | .error _ _ => false
      | .error _ => false) = true := by
    decide +kernel
  split at hrun
  next s hs =>
    split at hrun
    next result s' hstep =>
      rw [Bool.and_eq_true] at hrun
      obtain ⟨hresult, hrun⟩ := hrun
      split at hrun
      next expansion s'' hcollect =>
        cases result with
        | ok digits? => cases hresult
        | error fault =>
          cases expansion with
          | error fault => cases hrun
          | ok expansion =>
            have h : performAll [.step] s = .ok [.stepped (.error fault)] s' := by
              rw [performAll, perform, map_eq_pure_bind, bind_assoc, bind_of_ok hstep]
              rfl
            refine ⟨s, fault, s', expansion, s'', hs, h, ?_, hcollect, of_decide_eq_true hrun⟩
            intro hstops
            have hmade : ⟨false, s, .error fault, s'⟩ ∈ madeAll [.step] s := by
              simp [madeAll, madeBy, madeHere, hstep]
            obtain ⟨_, _, _, _, hfault⟩ := hstops _ hmade fault rfl
            rw [hcollect] at hfault
            cases hfault
      next => cases hrun
    next => cases hrun
  next => cases hrun

end PiDigits.Spigot
