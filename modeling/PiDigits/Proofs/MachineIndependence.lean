import PiDigits.Proofs.SpigotRun

namespace PiDigits

open Work

variable {σ τ : Type} {α : Type}

namespace Machine

def within (limit : ℕ) (refusal : Violation) (operands : List Word) (w : Work σ α) : Work σ α :=
  if operands.all (InRange limit ·) then w else throw refusal

/-- The machine, except that it refuses all that it does not have to be right about. -/
def refusing (m : Machine σ) (limit : ℕ) (refusal : Violation) : Machine σ where
  name := m.name
  isPositive x := within limit refusal [x] (m.isPositive x)
  holds x := within limit refusal [x] (m.holds x)
  increment x := within limit refusal [x] (m.increment x)
  decrement x := within limit refusal [x] (m.decrement x)
  logicalNot _ := throw refusal
  add x y := within limit refusal [x, y] (m.add x y)
  multiply x y := within limit refusal [x, y] (m.multiply x y)
  divide x y := if y = 0 then throw refusal else within limit refusal [x, y] (m.divide x y)
  modulus x y := if y = 0 then throw refusal else within limit refusal [x, y] (m.modulus x y)
  equals x y := within limit refusal [x, y] (m.equals x y)
  greaterThan x y := within limit refusal [x, y] (m.greaterThan x y)
  lessThan x y := within limit refusal [x, y] (m.lessThan x y)

variable {limit : ℕ} {refusal : Violation}

theorem agree_within_one {x : Word} {w : Work σ α} {v : Work τ α} (hx : InRange limit x)
    (h : Agree w v) : Agree (within limit refusal [x] w) v := by
  rwa [within, if_pos (by simpa using hx)]

theorem agree_within_two {x y : Word} {w : Work σ α} {v : Work τ α} (hx : InRange limit x)
    (hy : InRange limit y) (h : Agree w v) : Agree (within limit refusal [x, y] w) v := by
  rwa [within, if_pos (by simpa using ⟨hx, hy⟩)]

theorem AgreesBelow.refusing {m : Machine σ} (h : m.AgreesBelow limit) (refusal : Violation) :
    (m.refusing limit refusal).AgreesBelow limit where
  isPositive hx := agree_within_one hx (h.isPositive hx)
  increment hx := agree_within_one hx (h.increment hx)
  decrement hx := agree_within_one hx (h.decrement hx)
  add hx hy := agree_within_two hx hy (h.add hx hy)
  multiply hx hy := agree_within_two hx hy (h.multiply hx hy)
  divide hx hy hne := by
    simp only [Machine.refusing, if_neg hne]
    exact agree_within_two hx hy (h.divide hx hy hne)
  modulus hx hy hne := by
    simp only [Machine.refusing, if_neg hne]
    exact agree_within_two hx hy (h.modulus hx hy hne)
  equals hx hy := agree_within_two hx hy (h.equals hx hy)
  greaterThan hx hy := agree_within_two hx hy (h.greaterThan hx hy)
  lessThan hx hy := agree_within_two hx hy (h.lessThan hx hy)

theorem refusing_holds {m : Machine σ} (h : m.holds = m.isPositive) (refusal : Violation) :
    (m.refusing limit refusal).holds = (m.refusing limit refusal).isPositive := by
  simp only [refusing, h]

end Machine

namespace Spigot

structure Alike (s : Spigot σ) (t : Spigot τ) : Prop where
  digitCount : s.digitCount = t.digitCount
  policy : s.policy = t.policy
  columns : s.columns = t.columns
  held : s.held = t.held
  nextSweep : s.nextSweep = t.nextSweep
  flushed : s.flushed = t.flushed
  pending : s.pending = t.pending
  digitsReleased : s.digitsReleased = t.digitsReleased
  fault? : s.fault? = t.fault?
  events : s.events = t.events

variable {m : Machine σ} {m' : Machine τ} {n : ℕ} {s : Spigot σ} {s' : Spigot τ} {t : Exact}

theorem Follows.alike (h : Follows m s n t) (h' : Follows m' s' n t) : Alike s s' where
  digitCount := h.digitCount.trans h'.digitCount.symm
  policy := h.policy.trans h'.policy.symm
  columns := h.columns.trans h'.columns.symm
  held := h.held.trans h'.held.symm
  nextSweep := h.nextSweep.trans h'.nextSweep.symm
  flushed := h.flushed.trans h'.flushed.symm
  pending := h.pending.trans h'.pending.symm
  digitsReleased := h.digitsReleased.trans h'.digitsReleased.symm
  fault? := h.fault?.trans h'.fault?.symm
  events := h.events.trans h'.events.symm

def Indistinguishable (s : Spigot σ) (t : Spigot τ) : Prop :=
  ∀ calls, ∃ replies s' t', performAll calls s = .ok replies s' ∧
    performAll calls t = .ok replies t' ∧ Alike s' t'

theorem Follows.indistinguishable (h : Follows m s n t) (h' : Follows m' s' n t)
    (hs : t.Sound n) : Indistinguishable s s' := by
  intro calls
  obtain ⟨r, u, hu, rfl, hfollows⟩ := performAll_ends h hs calls
  obtain ⟨r', u', hu', rfl, hfollows'⟩ := performAll_ends h' hs calls
  exact ⟨_, u, u', hu, hu', hfollows.alike hfollows'⟩

theorem start_indistinguishable (memory : σ) (memory' : τ) {digitCount : UInt64}
    (hm : m.Serves (39 * columnCount digitCount.toNat))
    (hm' : m'.Serves (39 * columnCount digitCount.toNat)) :
    ∃ s t, start m memory digitCount = .ok s ∧ start m' memory' digitCount = .ok t ∧
      Indistinguishable s t := by
  obtain ⟨s, hs, hfollows⟩ := start_follows memory digitCount hm
  obtain ⟨t, ht, hfollows'⟩ := start_follows memory' digitCount hm'
  exact ⟨s, t, hs, ht, hfollows.indistinguishable hfollows' (Exact.sound_start _)⟩

/-- A machine with the answers of plain words for numbers in range can stand in for plain words,
and so can the one that counts. No question is about a number out of range: such a question would
be refused. -/
theorem start_independent (memory : σ) (digitCount : UInt64)
    (h : Admissible digitCount) (hm : m.AgreesBelow (39 * columnCount digitCount.toNat))
    (hholds : m.holds = m.isPositive) :
    (∃ (s : Spigot σ) (t : Spigot Unit), start m memory digitCount = .ok s ∧
        start .native () digitCount = .ok t ∧ Indistinguishable s t) ∧
      (Machine.counting : Machine Unit).AgreesBelow (39 * columnCount digitCount.toNat) ∧
      ∀ refusal, ∃ s t,
        start (m.refusing (39 * columnCount digitCount.toNat) refusal) memory digitCount = .ok s ∧
        start m memory digitCount = .ok t ∧ Indistinguishable s t := by
  have hserves := h.serves hm hholds
  refine ⟨?_, Machine.agreesBelow_counting _, ?_⟩
  · exact start_indistinguishable memory () hserves (h.serves_machine .native)
  · intro refusal
    have hrefusing := h.serves (hm.refusing refusal) (Machine.refusing_holds hholds refusal)
    exact start_indistinguishable memory memory hrefusing hserves

theorem start_independent_counting_ten :
    Admissible 10 ∧
      (Machine.counting : Machine Unit).AgreesBelow (39 * columnCount (10 : UInt64).toNat) ∧
      ∃ (s t : Spigot Unit), start .counting () 10 = .ok s ∧ start .native () 10 = .ok t ∧
        Indistinguishable s t := by
  obtain ⟨hstart, hm, -⟩ :=
    start_independent () 10 (by decide) (Machine.agreesBelow_counting (σ := Unit) _) rfl
  exact ⟨by decide, hm, hstart⟩

end Spigot

end PiDigits
