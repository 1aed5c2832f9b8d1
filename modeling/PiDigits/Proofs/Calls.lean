import PiDigits.Spigot

namespace PiDigits

inductive Call
  | step
  | next
  | withPolicy (policy : Policy)
  deriving DecidableEq, Repr

inductive Reply
  | stepped (digits : Except Fault (Option (List Digit)))
  | handed (digit? : Option Digit)
  | policySet

namespace Spigot

variable {σ : Type}

def perform : Call → Action σ Reply
  | .step => Reply.stepped <$> step
  | .next => Reply.handed <$> next
  | .withPolicy policy => do
    modify (·.withPolicy policy)
    return .policySet

def performAll : List Call → Action σ (List Reply)
  | [] => return []
  | call :: calls => do
    let reply ← perform call
    return reply :: (← performAll calls)

/-- The states that a computation comes through from `s₀` on, those inside a call of `next`
included. -/
inductive Visited (s₀ : Spigot σ) : Spigot σ → Prop
  | start : Visited s₀ s₀
  | step {s s' : Spigot σ} {digits : Except Fault (Option (List Digit))} :
    Visited s₀ s → Spigot.step s = .ok digits s' → Visited s₀ s'
  | advance {s s' : Spigot σ} {answer : Option (Option Digit)} :
    Visited s₀ s → Spigot.advance s = .ok answer s' → Visited s₀ s'
  | withPolicy {s : Spigot σ} (policy : Policy) : Visited s₀ s → Visited s₀ (s.withPolicy policy)

inductive Performed (s : Spigot σ) : Call → Reply → Spigot σ → Prop
  | step {digits : Except Fault (Option (List Digit))} {s' : Spigot σ} :
    Spigot.step s = .ok digits s' → Performed s .step (.stepped digits) s'
  | next {digit? : Option Digit} {s' : Spigot σ} :
    Spigot.next s = .ok digit? s' → Performed s .next (.handed digit?) s'
  | withPolicy (policy : Policy) :
    Performed s (.withPolicy policy) .policySet (s.withPolicy policy)

theorem of_bind_eq_ok {α β : Type} {x : Action σ α} {f : α → Action σ β} {b : β}
    {s s'' : Spigot σ} (h : (x >>= f) s = .ok b s'') :
    ∃ a s', x s = .ok a s' ∧ f a s' = .ok b s'' := by
  simp only [Bind.bind, EStateM.bind] at h
  split at h
  · exact ⟨_, _, ‹_›, h⟩
  · cases h

theorem perform_performed {call : Call} {reply : Reply} {s s' : Spigot σ}
    (h : perform call s = .ok reply s') : Performed s call reply s' := by
  cases call with
  | step =>
    rw [perform, map_eq_pure_bind] at h
    obtain ⟨digits, s₁, hstep, h⟩ := of_bind_eq_ok h
    cases h
    exact .step hstep
  | next =>
    rw [perform, map_eq_pure_bind] at h
    obtain ⟨digit?, s₁, hnext, h⟩ := of_bind_eq_ok h
    cases h
    exact .next hnext
  | withPolicy policy =>
    cases h
    exact .withPolicy policy

namespace Visited

variable {s₀ s s' : Spigot σ}

theorem nextWithin {rounds : Nat} {digit? : Option Digit} (h : Visited s₀ s)
    (hs : nextWithin rounds s = .ok digit? s') : Visited s₀ s' := by
  induction rounds generalizing s with
  | zero => cases hs
  | succ rounds ih =>
    obtain ⟨answer, s₁, hadvance, hs⟩ := of_bind_eq_ok hs
    have h₁ := h.advance hadvance
    cases answer with
    | some answer =>
      cases hs
      exact h₁
    | none => exact ih h₁ hs

theorem perform {call : Call} {reply : Reply} (h : Visited s₀ s)
    (hs : perform call s = .ok reply s') : Visited s₀ s' := by
  cases perform_performed hs with
  | step hstep => exact h.step hstep
  | next hnext => exact h.nextWithin hnext
  | withPolicy policy => exact h.withPolicy policy

theorem performAll {calls : List Call} {replies : List Reply} (h : Visited s₀ s)
    (hs : performAll calls s = .ok replies s') : Visited s₀ s' := by
  induction calls generalizing s replies with
  | nil =>
    cases hs
    exact h
  | cons call calls ih =>
    obtain ⟨reply, s₁, hcall, hs⟩ := of_bind_eq_ok hs
    obtain ⟨replies, s₂, hcalls, hs⟩ := of_bind_eq_ok hs
    cases hs
    exact ih (h.perform hcall) hcalls

end Visited

end Spigot

end PiDigits
