import PiDigits.Proofs.KeptFaults

namespace PiDigits.Spigot

variable {σ : Type} {s s' : Spigot σ} {calls : List Call} {replies : List Reply}

structure Exhausted (s : Spigot σ) : Prop where
  pending : s.pending = []
  stopped : s.flushed = true ∨ s.fault?.isSome = true

namespace Advanced

variable {answer : Option (Option Digit)} (h : Advanced s answer s')

include h

theorem pending_eq_nil (hanswer : ∀ digit, answer ≠ some (some digit)) : s.pending = [] := by
  cases h with
  | handed hpending => exact absurd rfl (hanswer _)
  | stopped hpending hfault => exact hpending
  | drawn hpending hfault hstep => exact hpending

theorem exhausted (hanswer : answer = some none) : s'.Exhausted := by
  cases h with
  | handed hpending => cases hanswer
  | stopped hpending hfault => exact ⟨hpending, .inr (by rw [hfault, Option.isSome_some])⟩
  | @drawn result s₁ hpending hfault hstep =>
    have hstepped := step_stepped hstep
    have hpending₁ : s₁.pending = [] := hstepped.pending.trans hpending
    match result with
    | .ok (some digits) => cases hanswer
    | .ok none =>
      cases hstepped with
      | idle hflushed => exact ⟨hpending, .inl hflushed⟩
    | .error fault => exact ⟨hpending₁, .inr rfl⟩

end Advanced

theorem nextWithin_none {rounds : ℕ} (h : nextWithin rounds s = .ok none s') :
    s.pending = [] ∧ s'.Exhausted := by
  induction rounds generalizing s with
  | zero => cases h
  | succ rounds ih =>
    obtain ⟨answer, s₁, hadvance, h⟩ := of_bind_eq_ok h
    have hadvanced := advance_advanced hadvance
    cases answer with
    | some answer =>
      cases h
      refine ⟨hadvanced.pending_eq_nil ?_, hadvanced.exhausted rfl⟩
      intro digit hanswer
      cases hanswer
    -- the round has made a step, so nothing was pending before it
    | none =>
      refine ⟨hadvanced.pending_eq_nil ?_, (ih h).2⟩
      intro digit hanswer
      cases hanswer

theorem Stepped.flushed {result : Except Fault (Option (List Digit))} (h : Stepped s result s')
    (hf : s.flushed = true) : s'.flushed = true := by
  cases h with
  | idle => exact hf
  | refused memory columns hflushed hw => exact hf
  | swept memory columns hflushed htakes hjournal => exact hf
  | ended memory hflushed hflush hsweeps hjournal => rfl

theorem step_flushed (h : s.flushed = true) : step s = .ok (.ok none) s := by
  rw [step, get_bind, if_pos h]
  rfl

namespace Exhausted

variable (h : s.Exhausted)

include h

theorem advance : Spigot.advance s = .ok (some none) s := by
  obtain ⟨hpending, hover⟩ := h
  cases hfault : s.fault? with
  | some fault => exact advance_fault hpending hfault
  | none =>
    have hflushed : s.flushed = true := by simpa [hfault] using hover
    rw [Spigot.advance, get_bind, hpending, hfault]
    exact bind_of_ok (step_flushed hflushed)

theorem nextWithin (rounds : ℕ) : Spigot.nextWithin (rounds + 1) s = .ok none s := by
  rw [Spigot.nextWithin, bind_of_ok h.advance]
  rfl

theorem perform {call : Call} {reply : Reply} (hs : Spigot.perform call s = .ok reply s') :
    s'.Exhausted ∧ ∀ digit?, reply = .handed digit? → digit? = none := by
  cases perform_performed hs with
  | step hstep =>
    have hstepped := step_stepped hstep
    refine ⟨⟨hstepped.pending.trans h.pending, ?_⟩, ?_⟩
    · rw [hstepped.fault?]
      exact h.stopped.imp_left hstepped.flushed
    · intro digit? hreply
      cases hreply
  | next hnext =>
    rw [next, roundLimit_eq, h.nextWithin] at hnext
    cases hnext
    refine ⟨h, ?_⟩
    intro digit? hreply
    cases hreply
    rfl
  | withPolicy policy =>
    refine ⟨⟨h.pending, h.stopped⟩, ?_⟩
    intro digit? hreply
    cases hreply

theorem performAll (hs : Spigot.performAll calls s = .ok replies s') :
    ∀ reply ∈ replies, ∀ digit?, reply = .handed digit? → digit? = none := by
  induction calls generalizing s replies with
  | nil =>
    cases hs
    intro reply hreply
    cases hreply
  | cons call calls ih =>
    obtain ⟨reply, s₁, hcall, hs⟩ := of_bind_eq_ok hs
    obtain ⟨replies, s₂, hcalls, hs⟩ := of_bind_eq_ok hs
    cases hs
    obtain ⟨h₁, hreply⟩ := h.perform hcall
    exact List.forall_mem_cons.2 ⟨hreply, ih h₁ hcalls⟩

end Exhausted

theorem perform_handed_none {call : Call} {reply : Reply} (h : perform call s = .ok reply s')
    (hreply : reply = .handed none) : s'.Exhausted := by
  cases perform_performed h with
  | step hstep => cases hreply
  | next hnext =>
    cases hreply
    exact (nextWithin_none hnext).2
  | withPolicy policy => cases hreply

theorem pairwise_handed (h : performAll calls s = .ok replies s') :
    replies.Pairwise fun reply later =>
      reply = .handed none → ∀ digit?, later = .handed digit? → digit? = none := by
  induction calls generalizing s replies with
  | nil =>
    cases h
    exact .nil
  | cons call calls ih =>
    obtain ⟨reply, s₁, hcall, h⟩ := of_bind_eq_ok h
    obtain ⟨replies, s₂, hcalls, h⟩ := of_bind_eq_ok h
    cases h
    refine .cons ?_ (ih hcalls)
    intro later hlater hreply
    exact (perform_handed_none hcall hreply).performAll hcalls later hlater

theorem of_run'_eq_some {α : Type} {x : Action σ α} {a : α} (h : x.run' s = some a) :
    ∃ s', x s = .ok a s' := by
  delta EStateM.run' EStateM.run at h
  cases hx : x s with
  | ok b s₁ =>
    rw [hx] at h
    cases h
    exact ⟨s₁, rfl⟩
  | error violation s₁ =>
    rw [hx] at h
    cases h

theorem of_toOption_eq_some {ε α : Type} {x : Except ε α} {a : α} (h : x.toOption = some a) :
    x = .ok a := by
  cases x with
  | ok b => exact congrArg Except.ok (Option.some.inj h)
  | error e => cases h

/-- The digits end exactly where nothing is pending and the computation is over or keeps a fault,
however many rounds a call of `next` may take; and there a call of `next` changes nothing. -/
theorem performAll_fused :
    (∀ (s s' : Spigot σ) (rounds : ℕ), nextWithin rounds s = .ok none s' →
      s.pending = [] ∧ s'.pending = [] ∧ (s'.flushed = true ∨ s'.fault?.isSome = true)) ∧
    (∀ (s : Spigot σ) (rounds : ℕ), s.pending = [] →
      s.flushed = true ∨ s.fault?.isSome = true → nextWithin (rounds + 1) s = .ok none s) ∧
    ∀ (s s' : Spigot σ) (calls : List Call) (replies : List Reply),
      performAll calls s = .ok replies s' →
        replies.Pairwise fun reply later =>
          reply = .handed none → ∀ digit?, later = .handed digit? → digit? = none := by
  refine ⟨?_, ?_, ?_⟩
  · intro s s' rounds h
    obtain ⟨hpending, hexhausted⟩ := nextWithin_none h
    exact ⟨hpending, hexhausted.pending, hexhausted.stopped⟩
  · intro s rounds hpending hover
    exact Exhausted.nextWithin ⟨hpending, hover⟩ rounds
  · intro s s' calls replies h
    exact pairwise_handed h

theorem performAll_fused_overshooting :
    ∃ s s₁ replies s', start overshooting ((), overshoot) 5 = .ok s ∧
      nextWithin 3 s = .ok none s₁ ∧ s₁.pending = [] ∧
      (s₁.flushed = true ∨ s₁.fault?.isSome = true) ∧ nextWithin 7 s₁ = .ok none s₁ ∧
      performAll [.next, .step, .withPolicy .keepPredigit, .step, .next] s = .ok replies s' ∧
      replies.flatMap Reply.returned ≠ [] ∧
      replies.Pairwise fun reply later =>
        reply = .handed none → ∀ digit?, later = .handed digit? → digit? = none := by
  have hrun : (start overshooting ((), overshoot) 5).toOption.any (fun s =>
      (nextWithin 3).run' s = some none ∧
        ((performAll [.next, .step, .withPolicy .keepPredigit, .step, .next]).run' s).any
          (·.flatMap Reply.returned ≠ [])) = true := by
    decide +kernel
  obtain ⟨s, hstart, hrun⟩ := (Option.any_eq_true _ _).mp hrun
  obtain ⟨hnext, hcalls⟩ := of_decide_eq_true hrun
  obtain ⟨replies, hcalls, hreturned⟩ := (Option.any_eq_true _ _).mp hcalls
  obtain ⟨s₁, hnext⟩ := of_run'_eq_some hnext
  obtain ⟨s', hcalls⟩ := of_run'_eq_some hcalls
  obtain ⟨-, hpending, hover⟩ := performAll_fused.1 _ _ _ hnext
  have hagain := performAll_fused.2.1 _ 6 hpending hover
  have hlater := performAll_fused.2.2 _ _ _ _ hcalls
  exact ⟨s, s₁, replies, s', of_toOption_eq_some hstart, hnext, hpending, hover, hagain, hcalls,
    of_decide_eq_true hreturned, hlater⟩

end PiDigits.Spigot
