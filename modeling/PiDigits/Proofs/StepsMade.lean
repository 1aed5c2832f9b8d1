import PiDigits.Proofs.StepOutcomes

namespace PiDigits

def Spigot.brought : Except Fault (Option (List Digit)) → List Digit
  | .ok (some digits) => digits
  | _ => []

def Reply.returned : Reply → List Digit
  | .stepped result => Spigot.brought result
  | _ => []

def Reply.handedOut : Reply → List Digit
  | .handed digit? => digit?.toList
  | _ => []

namespace Spigot

variable {σ : Type}

theorem pending_drawn {s : Spigot σ} (result : Except Fault (Option (List Digit)))
    (h : s.pending = []) : (drawn result s).pending = brought result := by
  match result with
  | .ok (some digits) => rfl
  | .ok none => exact h
  | .error fault => exact h

/-- A step that has been made, with the states on both sides of it. What a call of `next` does with
the result comes later. -/
structure Made (σ : Type) where
  inside : Bool
  before : Spigot σ
  result : Except Fault (Option (List Digit))
  after : Spigot σ

namespace Made

def released (made : Made σ) : List Digit := brought made.result

def published (made : Made σ) : List Event := made.after.events.drop made.before.events.length

end Made

def madeHere (inside : Bool) (s : Spigot σ) : List (Made σ) :=
  match step s with
  | .ok result s' => [⟨inside, s, result, s'⟩]
  | .error _ _ => []

theorem madeHere_eq {inside : Bool} {s s' : Spigot σ}
    {result : Except Fault (Option (List Digit))}
    (h : step s = .ok result s') : madeHere inside s = [⟨inside, s, result, s'⟩] := by
  rw [madeHere, h]

def madeWithin : (rounds : ℕ) → Spigot σ → List (Made σ)
  | 0, _ => []
  | rounds + 1, s =>
    (if s.pending.isEmpty && s.fault?.isNone then madeHere true s else []) ++
      match advance s with
      | .ok none s' => madeWithin rounds s'
      | _ => []

def madeBy : Call → Spigot σ → List (Made σ)
  | .step, s => madeHere false s
  | .next, s => madeWithin Machine.roundLimit s
  | .withPolicy _, _ => []

def madeAll : List Call → Spigot σ → List (Made σ)
  | [], _ => []
  | call :: calls, s =>
    madeBy call s ++
      match perform call s with
      | .ok _ s' => madeAll calls s'
      | .error _ _ => []

structure Kept (P : List (Made σ) → List Digit → Spigot σ → Prop) : Prop where
  step {made handed s result s'} : P made handed s → Spigot.step s = .ok result s' →
    P (made ++ [⟨false, s, result, s'⟩]) handed s'
  drawn {made handed s result s'} : P made handed s → s.pending = [] → s.fault? = none →
    Spigot.step s = .ok result s' → P (made ++ [⟨true, s, result, s'⟩]) handed (drawn result s')
  hand {made handed s digit pending} : P made handed s → s.pending = digit :: pending →
    P made (handed ++ [digit]) { s with pending }
  withPolicy {made handed s} : P made handed s → ∀ policy, P made handed (s.withPolicy policy)

namespace Kept

variable {P : List (Made σ) → List Digit → Spigot σ → Prop} (h : Kept P) {s s' : Spigot σ}
  {made : List (Made σ)} {handed : List Digit}

include h

theorem nextWithin {rounds : ℕ} {digit? : Option Digit} (hP : P made handed s)
    (hs : nextWithin rounds s = .ok digit? s') :
    P (made ++ madeWithin rounds s) (handed ++ digit?.toList) s' := by
  induction rounds generalizing s made with
  | zero => cases hs
  | succ rounds ih =>
    obtain ⟨answer, s₁, hadvance, hs⟩ := of_bind_eq_ok hs
    rw [madeWithin, hadvance]
    cases advance_advanced hadvance with
    | handed hpending =>
      cases hs
      simpa [hpending] using h.hand hP hpending
    | stopped hpending hfault =>
      cases hs
      simpa [hfault] using hP
    | @drawn result s₁ hpending hfault hstep =>
      have hdrawn := h.drawn hP hpending hfault hstep
      rw [hpending, hfault, List.isEmpty_nil, Option.isNone_none, Bool.and_self, if_pos rfl,
        madeHere, hstep]
      match result with
      | .ok (some digits) =>
        have hrest := ih hdrawn hs
        rwa [List.append_assoc] at hrest
      | .ok none =>
        cases hs
        simpa [drawnAnswer] using hdrawn
      | .error fault =>
        cases hs
        simpa [drawnAnswer] using hdrawn

theorem perform {call : Call} {reply : Reply} (hP : P made handed s)
    (hs : perform call s = .ok reply s') :
    P (made ++ madeBy call s) (handed ++ reply.handedOut) s' := by
  cases perform_performed hs with
  | step hstep =>
    rw [madeBy, madeHere_eq hstep]
    simpa [Reply.handedOut] using h.step hP hstep
  | next hnext => exact h.nextWithin hP hnext
  | withPolicy policy => simpa [madeBy, Reply.handedOut] using h.withPolicy hP policy

theorem performAll {calls : List Call} {replies : List Reply} (hP : P made handed s)
    (hs : performAll calls s = .ok replies s') :
    P (made ++ madeAll calls s) (handed ++ replies.flatMap Reply.handedOut) s' := by
  induction calls generalizing s made handed replies with
  | nil =>
    cases hs
    simpa [madeAll] using hP
  | cons call calls ih =>
    obtain ⟨reply, s₁, hcall, hs⟩ := of_bind_eq_ok hs
    obtain ⟨replies, s₂, hcalls, hs⟩ := of_bind_eq_ok hs
    cases hs
    have hrest := ih (h.perform hP hcall) hcalls
    rw [madeAll, hcall]
    rwa [List.append_assoc, List.append_assoc, ← List.flatMap_cons] at hrest

theorem run {calls : List Call} {replies : List Reply} (hP : P [] [] s)
    (hs : Spigot.performAll calls s = .ok replies s') :
    P (madeAll calls s) (replies.flatMap Reply.handedOut) s' := by
  simpa using h.performAll hP hs

end Kept

section Recorded

variable {s s' : Spigot σ} {calls : List Call} {replies : List Reply}

theorem of_mem_madeHere {inside : Bool} {made : Made σ} (h : made ∈ madeHere inside s) :
    made.inside = inside ∧ step made.before = .ok made.result made.after := by
  rw [madeHere] at h
  split at h
  · rw [List.mem_singleton.1 h]
    exact ⟨rfl, ‹_›⟩
  · cases h

theorem of_mem_madeWithin {rounds : ℕ} {made : Made σ} (h : made ∈ madeWithin rounds s) :
    made.inside = true ∧ step made.before = .ok made.result made.after := by
  induction rounds generalizing s with
  | zero => cases h
  | succ rounds ih =>
    rw [madeWithin] at h
    rcases List.mem_append.1 h with h | h
    · split at h
      · exact of_mem_madeHere h
      · cases h
    · split at h
      · exact ih h
      · cases h

theorem step_of_mem_madeAll {made : Made σ} (h : made ∈ madeAll calls s) :
    step made.before = .ok made.result made.after := by
  induction calls generalizing s with
  | nil => cases h
  | cons call calls ih =>
    rw [madeAll] at h
    rcases List.mem_append.1 h with h | h
    · cases call with
      | step => exact (of_mem_madeHere h).2
      | next => exact (of_mem_madeWithin h).2
      | withPolicy policy => cases h
    · split at h
      · exact ih h
      · cases h

theorem filter_madeBy_next : (madeBy .next s).filter (!·.inside) = [] := by
  rw [List.filter_eq_nil_iff]
  intro made hmade
  simp [(of_mem_madeWithin hmade).1]

theorem own_steps (h : performAll calls s = .ok replies s') :
    ((madeAll calls s).filter (!·.inside)).length = calls.count .step ∧
      ((madeAll calls s).filter (!·.inside)).flatMap Made.released =
        replies.flatMap Reply.returned := by
  induction calls generalizing s replies with
  | nil =>
    cases h
    exact ⟨rfl, rfl⟩
  | cons call calls ih =>
    obtain ⟨reply, s₁, hcall, h⟩ := of_bind_eq_ok h
    obtain ⟨replies, s₂, hcalls, h⟩ := of_bind_eq_ok h
    cases h
    obtain ⟨hcount, hreturned⟩ := ih hcalls
    rw [madeAll, hcall]
    simp only [List.filter_append, List.length_append, List.flatMap_append, hcount, hreturned,
      List.flatMap_cons]
    cases perform_performed hcall with
    | step hstep =>
      rw [madeBy, madeHere_eq hstep, List.count_cons_self]
      exact ⟨Nat.add_comm _ _, by simp [Made.released, Reply.returned]⟩
    | next hnext =>
      rw [filter_madeBy_next]
      simp [Reply.returned]
    | withPolicy policy => simp [madeBy, Reply.returned]

end Recorded

end Spigot

end PiDigits
