import PiDigits.Proofs.ColumnSweep
import PiDigits.Proofs.ExactInvariants

namespace PiDigits.Spigot

open Work

variable {σ : Type} {α β : Type} {m : Machine σ} {n : ℕ} {s : Spigot σ} {t : Exact}

def Ends (x : Action σ α) (s : Spigot σ) (P : α → Spigot σ → Prop) : Prop :=
  ∃ a s', x s = .ok a s' ∧ P a s'

theorem Ends.pure {P : α → Spigot σ → Prop} {a : α} (h : P a s) :
    Ends (Pure.pure a : Action σ α) s P := ⟨a, s, rfl, h⟩

theorem Ends.bind {x : Action σ α} {f : α → Action σ β} {P : β → Spigot σ → Prop}
    (h : Ends x s fun a s' => Ends (f a) s' P) : Ends (x >>= f) s P := by
  obtain ⟨a, s', hx, b, s'', hf, hP⟩ := h
  refine ⟨b, s'', ?_, hP⟩
  simp only [Bind.bind, EStateM.bind, hx]
  exact hf

theorem Ends.mono {x : Action σ α} {P Q : α → Spigot σ → Prop} (h : Ends x s P)
    (hPQ : ∀ a s', P a s' → Q a s') : Ends x s Q := by
  obtain ⟨a, s', hx, hP⟩ := h
  exact ⟨a, s', hx, hPQ a s' hP⟩

theorem Ends.of_ok {x : Action σ α} {P : α → Spigot σ → Prop} {a : α} {s' : Spigot σ}
    (h : Ends x s P) (hx : x s = .ok a s') : P a s' := by
  obtain ⟨a', s'', hx', hP⟩ := h
  rw [hx'] at hx
  cases hx
  exact hP

theorem Ends.work {P : α → Spigot σ → Prop} {w : Machine σ → Work σ α} {a : α}
    (hw : Gives (w s.machine) a) (h : ∀ memory, P a { s with memory }) :
    Ends (Spigot.work w) s P := by
  obtain ⟨memory, hm⟩ := hw s.memory
  refine ⟨a, { s with memory }, ?_, h memory⟩
  simp only [Spigot.work, hm]

section Bind

variable {P : β → Spigot σ → Prop}

theorem Ends.bind_get {f : Spigot σ → Action σ β} (h : Ends (f s) s P) :
    Ends (get >>= f) s P := .bind ⟨s, s, rfl, h⟩

theorem Ends.bind_set {f : PUnit → Action σ β} {s' : Spigot σ} (h : Ends (f ⟨⟩) s' P) :
    Ends (set s' >>= f) s P := .bind ⟨⟨⟩, s', rfl, h⟩

theorem Ends.bind_modify {f : PUnit → Action σ β} {g : Spigot σ → Spigot σ}
    (h : Ends (f ⟨⟩) (g s) P) : Ends (modify g >>= f) s P := .bind ⟨⟨⟩, g s, rfl, h⟩

theorem Ends.bind_report {f : Unit → Action σ β} {notices : List Notice}
    (h : Ends (f ()) { s with journal := s.journal ++ notices } P) :
    Ends (report notices >>= f) s P := .bind ⟨(), _, rfl, h⟩

theorem Ends.bind_work {w : Machine σ → Work σ α} {f : α → Action σ β} {a : α}
    (hw : Gives (w s.machine) a) (h : ∀ memory, Ends (f a) { s with memory } P) :
    Ends (Spigot.work w >>= f) s P := .bind (.work hw h)

end Bind

/-- The computation on the machine stands where the one on natural numbers does, and the machine is
good for all the numbers that can still occur. -/
structure Follows (m : Machine σ) (s : Spigot σ) (n : ℕ) (t : Exact) : Prop where
  machine : s.machine = m
  serves : s.machine.Serves (39 * columnCount n)
  digitCount : s.digitCount = Int64.ofNat n
  policy : s.policy = t.policy
  columns : s.columns = .ofNats t.columns
  held : s.held = t.waiting.toHeld
  nextSweep : s.nextSweep = Int64.ofNat (t.carries.length + 1)
  flushed : s.flushed = t.flushed
  pending : s.pending = t.pending
  digitsReleased : s.digitsReleased = t.output.length
  fault? : s.fault? = none
  events : s.events = t.events

theorem Follows.withMemory (h : Follows m s n t) (memory : σ) : Follows m { s with memory } n t :=
  { h with }

theorem sweepsRemain_ends (h : Follows m s n t) (hs : t.Sound n)
    {P : Bool → Spigot σ → Prop}
    (hP : ∀ memory, P (decide (t.carries.length < n)) { s with memory }) :
    Ends sweepsRemain s P := by
  have hl := Exact.lt_columnCount n
  have hc := hs.carries_le
  apply Ends.bind_get
  refine Ends.work ?_ hP
  rw [h.digitCount, h.nextSweep]
  apply (h.serves.increment (by omega)).bind
  have := h.serves.holds_lessThan (a := t.carries.length + 1) (b := n + 1) (by omega) (by omega)
  simpa using this

theorem reducedCarry_reduces {limit : ℕ} {entries : List ℕ} (hm : s.machine.Serves limit)
    (hfirst : 110 ≤ limit) (hc : s.columns = .ofNats entries) (hs : Radix.Shaped entries)
    (hl : 39 * entries.length ≤ limit) {P : Word → Spigot σ → Prop}
    (hP : ∀ memory, P (Int64.ofNat (Radix.reduce entries).1)
      { s with memory, columns := .ofNats (Radix.reduce entries).2 }) :
    Ends reducedCarry s P := by
  have hsmall := hm.small
  obtain ⟨first, rest, rfl⟩ : ∃ first rest, entries = first :: rest := by
    cases entries with
    | nil => exact hs.elim
    | cons first rest => exact ⟨first, rest, rfl⟩
  have hintake := (Radix.intake_first_le hs).trans_lt hfirst
  have hreduced := Radix.pass_reduced (le_refl 1) (first :: rest)
  have hsweep := Columns.sweep_gives hm hfirst hs hl
  have hextract := Columns.extract_gives hm hintake 0 (Radix.pass 2 rest).2
  have hunreduced := Columns.firstUnreduced?_ofNats hreduced (by simp at hl ⊢; omega)
  rw [Radix.reduce_cons] at hP
  rw [Radix.pass_first] at hsweep hunreduced
  rw [← hc] at hsweep
  apply Ends.bind_get
  apply Ends.bind_work hsweep
  intro memory
  simp only [hunreduced]
  apply Ends.bind_modify
  apply Ends.bind_work hextract
  intro memory
  apply Ends.bind_modify
  exact .pure (hP memory)

theorem reducedCarry_ends (h : Follows m s n t) (hs : t.Sound n) (hn : 1 ≤ n)
    {P : Word → Spigot σ → Prop}
    (hP : ∀ memory, P (Int64.ofNat t.carry)
      { s with memory, columns := .ofNats (Radix.reduce t.columns).2 }) :
    Ends reducedCarry s P := by
  have hfirst : 110 ≤ 39 * columnCount n := by
    rw [columnCount]
    omega
  have hlen := hs.length
  exact reducedCarry_reduces h.serves hfirst h.columns hs.shaped (by omega) hP

theorem Follows.toInt_nines (h : Follows m s n t) (hs : t.Sound n) :
    s.held.nines.toInt = t.waiting.nines := by
  have hsmall := h.serves.small
  have hl := Exact.lt_columnCount n
  have hnines := hs.nines_le
  have hc := hs.carries_le
  rw [h.held, Waiting.toHeld, Int64.toInt_ofNat_of_lt (by omega)]

theorem Follows.sweepsCompleted (h : Follows m s n t) (hs : t.Sound n) :
    s.sweepsCompleted = .ok t.carries.length := by
  have hsmall := h.serves.small
  have hl := Exact.lt_columnCount n
  have hc := hs.carries_le
  have hne : Int64.ofNat (t.carries.length + 1) ≠ Int64.minValue :=
    Word.ne_minValue (Word.ofNat_nonneg (by omega))
  have hsub : Int64.ofNat (t.carries.length + 1) - 1 = Int64.ofNat t.carries.length := by
    rw [Int64.ofNat_add]
    grind
  rw [Spigot.sweepsCompleted, h.nextSweep, if_neg hne, hsub, Columns.toCount_ofNat (by omega)]

theorem released_eq (sweep : ℕ) (digits : List Digit) :
    (released sweep digits).filterMap Notice.event? = Exact.emitted sweep digits := by
  rw [released, Exact.emitted]
  split <;> rfl

theorem Follows.length_settled (h : Follows m s n t) (hf : t.flushed = false) :
    s.digitsReleased = t.settled.length := by
  simp [h.digitsReleased, Exact.output, hf]

theorem Follows.afterSweep (h : Follows m s n t) (hf : t.flushed = false) (memory : σ)
    {journal : Array Notice}
    (hj : journal.toList.filterMap Notice.event? = t.events ++ t.sweepEvents) :
    Follows m { s with
      memory
      columns := .ofNats (Radix.reduce t.columns).2
      held := (t.waiting.after t.policy t.carry).toHeld
      nextSweep := Int64.ofNat (t.carries.length + 1 + 1)
      digitsReleased := s.digitsReleased + t.digits.length
      journal } n t.afterSweep :=
  { h with
    columns := rfl
    held := rfl
    nextSweep := by simp only [Exact.afterSweep, List.length_append, List.length_singleton]
    digitsReleased := by simp [h.length_settled hf, Exact.output, Exact.afterSweep, hf]
    events := hj }

theorem Follows.afterEnd (h : Follows m s n t) (hf : t.flushed = false) {journal : Array Notice}
    (hj : journal.toList.filterMap Notice.event? = t.events ++ t.endEvents) :
    Follows m { s with
      flushed := true
      digitsReleased := s.digitsReleased + t.waiting.front.length
      journal } n t.afterEnd :=
  { h with
    flushed := rfl
    digitsReleased := by simp [h.length_settled hf, Exact.output, Exact.afterEnd]
    events := hj }

theorem sweepOnce_ends (h : Follows m s n t) (hs : t.Sound n) (hf : t.flushed = false)
    (hl : t.carries.length < n) :
    Ends sweepOnce s fun r s' => r = .ok t.digits ∧ Follows m s' n t.afterSweep := by
  have hsmall := h.serves.small
  have hlc := Exact.lt_columnCount n
  have hevents : s.journal.toList.filterMap Notice.event? = t.events := h.events
  have hw : Gives (s.held.classify s.machine s.policy (Int64.ofNat t.carry) [])
      (.ok (Waiting.kind t.carry), (t.waiting.after t.policy t.carry).toHeld, t.digits) := by
    rw [h.held, h.policy]
    exact Waiting.classify_gives h.serves t.policy hs.carry_le hs.predigit_le
      (hs.nines_le.trans_lt (by omega)) []
  apply Ends.bind_get
  apply Ends.bind
  apply reducedCarry_ends h hs (by omega)
  intro memory
  apply Ends.bind_work hw
  intro memory
  apply Ends.bind_modify
  dsimp only
  rw [h.nextSweep, Columns.toCount_ofNat (by omega)]
  apply Ends.bind_work (h.serves.increment (by omega))
  intro memory
  apply Ends.bind_modify
  apply Ends.bind_report
  dsimp only
  split
  · rename_i hk
    rw [Waiting.kind_eq_nine_iff] at hk
    iterate 2 apply Ends.bind_report
    refine .pure ⟨rfl, ?_⟩
    apply h.afterSweep hf
    simp [hevents, Notice.event?, List.filterMap_cons, released_eq, Exact.sweepEvents, hk,
      Waiting.after, Waiting.kind_nine, Waiting.toHeld]
  · rename_i hk
    rw [Waiting.kind_eq_nine_iff] at hk
    apply Ends.bind_report
    refine .pure ⟨rfl, ?_⟩
    apply h.afterSweep hf
    simp [hevents, Notice.event?, List.filterMap_cons, released_eq, Exact.sweepEvents, hk]

theorem finish_ends (h : Follows m s n t) (hs : t.Sound n) (hf : t.flushed = false) :
    Ends finish s fun r s' => r = .ok t.waiting.front ∧ Follows m s' n t.afterEnd := by
  have hflush : s.held.flush [] = .ok t.waiting.front := by
    rw [h.held, Waiting.flush_toHeld hs.predigit_le, List.nil_append]
  have hevents : s.journal.toList.filterMap Notice.event? = t.events := h.events
  apply Ends.bind_get
  simp only [hflush, h.sweepsCompleted hs]
  apply Ends.bind_set
  apply Ends.bind
  refine ⟨t.carries.length, _, rfl, ?_⟩
  dsimp only
  split
  · iterate 4 apply Ends.bind_report
    refine .pure ⟨rfl, ?_⟩
    apply h.afterEnd hf
    simp [hevents, released_eq, h.length_settled hf, Notice.event?, Exact.endEvents,
      List.filterMap_cons]
  · iterate 3 apply Ends.bind_report
    refine .pure ⟨rfl, ?_⟩
    apply h.afterEnd hf
    simp [hevents, released_eq, h.length_settled hf, Notice.event?, Exact.endEvents,
      List.filterMap_cons]

theorem step_ends (h : Follows m s n t) (hs : t.Sound n) :
    Ends step s fun r s' => r = .ok (t.step n).1 ∧ Follows m s' n (t.step n).2 := by
  apply Ends.bind_get
  rw [h.flushed, Exact.step]
  by_cases hf : t.flushed = true
  · rw [if_pos hf, if_pos hf]
    exact .pure ⟨rfl, h⟩
  rw [if_neg hf, if_neg hf]
  rw [Bool.not_eq_true] at hf
  refine .bind (sweepsRemain_ends h hs fun memory => ?_)
  by_cases hl : t.carries.length < n
  · rw [decide_eq_true hl, if_pos rfl, if_pos hl]
    refine .bind ((sweepOnce_ends (h.withMemory memory) hs hf hl).mono fun r s' hr => ?_)
    rw [hr.1]
    exact .pure ⟨rfl, hr.2⟩
  · rw [decide_eq_false hl, if_neg Bool.false_ne_true, if_neg hl]
    refine .bind ((finish_ends (h.withMemory memory) hs hf).mono fun r s' hr => ?_)
    rw [hr.1]
    exact .pure ⟨rfl, hr.2⟩

theorem stepsLeft_lt_roundLimit (h : Follows m s n t) : t.stepsLeft n < Machine.roundLimit := by
  have hsmall := h.serves.small
  have hl := Exact.lt_columnCount n
  rw [Exact.stepsLeft, Machine.roundLimit]
  split <;> omega

theorem advance_ends (h : Follows m s n t) (hs : t.Sound n) :
    Ends advance s fun r s' => r = (t.advance n).1 ∧ Follows m s' n (t.advance n).2 := by
  apply Ends.bind_get
  rw [h.pending, Exact.advance]
  cases hp : t.pending with
  | cons digit rest => exact .bind_set (.pure ⟨rfl, { h with pending := rfl }⟩)
  | nil =>
    simp only [h.fault?, Option.isSome_none, Bool.false_eq_true, if_false]
    refine .bind ((step_ends h hs).mono fun r s' hr => ?_)
    obtain ⟨rfl, hfollows⟩ := hr
    by_cases hf : t.flushed = true
    · rw [Exact.step, if_pos hf] at hfollows ⊢
      rw [if_pos hf]
      exact .pure ⟨rfl, hfollows⟩
    · obtain ⟨digits, hd⟩ : ∃ digits, (t.step n).1 = some digits := by
        rw [Exact.step, if_neg hf]
        split <;> exact ⟨_, rfl⟩
      simp only [hd, if_neg hf, Option.getD_some]
      exact .bind_modify (.pure ⟨rfl, { hfollows with pending := rfl }⟩)

theorem nextWithin_ends {rounds : ℕ} (h : Follows m s n t) (hs : t.Sound n)
    (hr : t.stepsLeft n < rounds) :
    Ends (nextWithin rounds) s fun r s' => r = (t.next n).1 ∧ Follows m s' n (t.next n).2 := by
  -- a round that leaves the answer open makes a step, of which only so many are left
  induction rounds generalizing s t with
  | zero => omega
  | succ rounds ih =>
    refine .bind ((advance_ends h hs).mono fun r s' hr' => ?_)
    obtain ⟨rfl, hfollows⟩ := hr'
    have hsound := (Exact.kept_sound n).advance hs
    cases ha : t.advance n with
    | mk answer t' =>
      rw [ha] at hfollows hsound
      cases answer with
      | some digit? =>
        rw [Exact.next_of_some ha]
        exact .pure ⟨rfl, hfollows⟩
      | none =>
        have hsteps := Exact.stepsLeft_advance ha
        rw [Exact.next_of_none ha]
        exact ih hfollows hsound (by omega)

theorem next_ends (h : Follows m s n t) (hs : t.Sound n) :
    Ends next s fun r s' => r = (t.next n).1 ∧ Follows m s' n (t.next n).2 :=
  nextWithin_ends h hs (stepsLeft_lt_roundLimit h)

theorem takeAfter_ends (h : Follows m s n t) (hs : t.Sound n) (count : ℕ) (taken : Array Digit) :
    Ends (takeAfter count taken) s fun r s' =>
      r = taken.toList ++ (t.take n count).1 ∧ Follows m s' n (t.take n count).2 := by
  induction count generalizing s t taken with
  | zero => exact .pure ⟨by simp [Exact.take], h⟩
  | succ count ih =>
    refine .bind ((next_ends h hs).mono fun r s' hr => ?_)
    obtain ⟨rfl, hfollows⟩ := hr
    have hsound := (Exact.kept_sound n).next hs
    rw [Exact.take]
    cases hn : t.next n with
    | mk digit? t' =>
      rw [hn] at hfollows hsound
      cases digit? with
      | none => exact .pure ⟨by simp, hfollows⟩
      | some digit =>
        refine (ih hfollows hsound (taken.push digit)).mono fun r s' hr => ?_
        exact ⟨by simp [hr.1], hr.2⟩

theorem rest_ends (h : Follows m s n t) (hs : t.Sound n) :
    Ends rest s fun r s' => r = (t.take n Machine.roundLimit).1 ∧
      Follows m s' n (t.take n Machine.roundLimit).2 := by
  change Ends (takeAfter Machine.roundLimit #[]) s _
  simpa using takeAfter_ends h hs Machine.roundLimit #[]

theorem collect_ends (h : Follows m s n t) (hs : t.Sound n) :
    Ends collect s fun r s' => r = .ok ⟨(t.take n Machine.roundLimit).1⟩ ∧
      Follows m s' n (t.take n Machine.roundLimit).2 := by
  refine .bind ((rest_ends h hs).mono fun digits s' hr => ?_)
  obtain ⟨rfl, hfollows⟩ := hr
  apply Ends.bind_get
  rw [hfollows.fault?]
  exact .pure ⟨rfl, hfollows⟩

theorem Follows.withPolicy (h : Follows m s n t) (policy : Policy) :
    Follows m (s.withPolicy policy) n (t.withPolicy policy) :=
  { h with policy := rfl }

theorem perform_ends (h : Follows m s n t) (hs : t.Sound n) (call : Call) :
    Ends (perform call) s fun r s' => r = (t.call n call).1 ∧ Follows m s' n (t.call n call).2 := by
  cases call with
  | step =>
    refine .bind ((step_ends h hs).mono fun r s' hr => .pure ⟨?_, hr.2⟩)
    rw [hr.1]
    rfl
  | next =>
    refine .bind ((next_ends h hs).mono fun r s' hr => .pure ⟨?_, hr.2⟩)
    rw [hr.1]
    rfl
  | withPolicy policy => exact .bind_modify (.pure ⟨rfl, h.withPolicy policy⟩)

theorem performAll_ends (h : Follows m s n t) (hs : t.Sound n) (calls : List Call) :
    Ends (performAll calls) s fun r s' =>
      r = (t.calls n calls).1 ∧ Follows m s' n (t.calls n calls).2 := by
  induction calls generalizing s t with
  | nil => exact .pure ⟨rfl, h⟩
  | cons call calls ih =>
    refine .bind ((perform_ends h hs call).mono fun r s' hr => ?_)
    obtain ⟨rfl, hfollows⟩ := hr
    have hsound : (t.call n call).2.Sound n := by
      cases call with
      | step => exact (Exact.kept_sound n).step hs
      | next => exact (Exact.kept_sound n).next hs
      | withPolicy policy => exact hs.withPolicy policy
    refine .bind ((ih hfollows hsound).mono fun r s' hr => .pure ⟨?_, hr.2⟩)
    rw [hr.1]
    rfl

theorem Visited.follows_kept {P : Exact → Prop} (hP : Exact.Kept n P)
    (hpolicy : ∀ t policy, P t → P (t.withPolicy policy)) (hsound : ∀ t, P t → t.Sound n)
    {s₀ : Spigot σ} (h : Visited s₀ s) (h₀ : Follows m s₀ n t) (ht : P t) :
    ∃ t', P t' ∧ Follows m s n t' := by
  induction h with
  | start => exact ⟨t, ht, h₀⟩
  | step _ hstep ih =>
    obtain ⟨t', ht', h⟩ := ih
    exact ⟨_, hP.step ht', ((step_ends h (hsound t' ht')).of_ok hstep).2⟩
  | advance _ hadvance ih =>
    obtain ⟨t', ht', h⟩ := ih
    exact ⟨_, hP.advance ht', ((advance_ends h (hsound t' ht')).of_ok hadvance).2⟩
  | withPolicy policy _ ih =>
    obtain ⟨t', ht', h⟩ := ih
    exact ⟨_, hpolicy t' policy ht', h.withPolicy policy⟩

theorem Visited.follows {s₀ : Spigot σ} (h : Visited s₀ s) (h₀ : Follows m s₀ n t)
    (hs₀ : t.Sound n) : ∃ t', t'.Sound n ∧ Follows m s n t' :=
  h.follows_kept (Exact.kept_sound n) (fun _ policy hs => hs.withPolicy policy) (fun _ hs => hs) h₀
    hs₀

theorem ofCount_eq (digitCount : UInt64) :
    Word.ofCount digitCount = Int64.ofNat digitCount.toNat := by
  conv_lhs => rw [← UInt64.ofNat_toNat (x := digitCount)]
  rfl

theorem count_eq {digitCount : UInt64} (h : 10 * digitCount.toNat < 2 ^ 64) :
    Columns.count digitCount = .ok (UInt64.ofNat (columnCount digitCount.toNat)) := by
  rw [Columns.count, if_pos (by rw [UInt64.size]; omega)]
  congr 1
  apply UInt64.toNat_inj.1
  rw [UInt64.toNat_ofNat', UInt64.toNat_add, UInt64.toNat_div, UInt64.toNat_mul]
  rw [show (10 : UInt64).toNat = 10 from rfl, show (3 : UInt64).toNat = 3 from rfl,
    show (1 : UInt64).toNat = 1 from rfl, Nat.mod_eq_of_lt (a := 10 * _) h]
  rfl

theorem toNat_size {size : ℕ} (h : size < 2 ^ 64) : (UInt64.ofNat size).toNat = size := by
  rw [UInt64.toNat_ofNat', Nat.mod_eq_of_lt h]

theorem le_sizeLimit_iff {size : UInt64} : size ≤ Columns.sizeLimit ↔ size.toNat < 2 ^ 60 := by
  have hlimit : Columns.sizeLimit.toNat = 2 ^ 60 - 1 := rfl
  rw [UInt64.le_iff_toNat_le]
  omega

theorem size_le_sizeLimit {size : ℕ} (h : size < 2 ^ 60) :
    UInt64.ofNat size ≤ Columns.sizeLimit := by
  rw [le_sizeLimit_iff, toNat_size (by omega)]
  exact h

theorem make_eq {size : ℕ} (h : size < 2 ^ 60) :
    Columns.make (UInt64.ofNat size) = .ok (.ofNats (List.replicate size 2)) := by
  rw [Columns.make, if_pos (size_le_sizeLimit h), toNat_size (by omega), Columns.ofNats,
    List.map_replicate, List.toArray_replicate]
  rfl

theorem columnWord_gives {digitCount : UInt64}
    (hm : m.Serves (39 * columnCount digitCount.toNat)) :
    Gives (columnWord m digitCount) (Int64.ofNat (columnCount digitCount.toNat)) := by
  have hl := Exact.lt_columnCount digitCount.toNat
  have hc : 10 * digitCount.toNat < 39 * columnCount digitCount.toNat := by omega
  rw [columnWord, ofCount_eq]
  apply (hm.multiply (a := 10) (by omega) (by omega)).bind
  apply (hm.divide (b := 3) hc (by omega) (by omega)).bind
  exact hm.increment (by rw [columnCount] at *; omega)

theorem start_follows (memory : σ) (digitCount : UInt64)
    (hm : m.Serves (39 * columnCount digitCount.toNat)) :
    ∃ s, start m memory digitCount = .ok s ∧
      Follows m s digitCount.toNat (.start digitCount.toNat) := by
  have hsmall := hm.small
  have hl := Exact.lt_columnCount digitCount.toNat
  obtain ⟨memory', hsize⟩ := columnWord_gives hm memory
  have hcount : Word.toCount (Int64.ofNat (columnCount digitCount.toNat)) =
      UInt64.ofNat (columnCount digitCount.toNat) := rfl
  have hmake : Columns.make (UInt64.ofNat (columnCount digitCount.toNat)) = _ := make_eq (by omega)
  have hexpected : Columns.count digitCount = _ := count_eq (by omega)
  rw [start, hsize]
  simp only [Bind.bind, Except.bind, hcount, hmake, hexpected, ne_eq, not_true_eq_false, if_false]
  refine ⟨_, rfl, ?_⟩
  exact {
    machine := rfl
    serves := hm
    digitCount := ofCount_eq digitCount
    policy := rfl
    columns := rfl
    held := rfl
    nextSweep := rfl
    flushed := rfl
    pending := rfl
    digitsReleased := rfl
    fault? := rfl
    events := rfl }

/-- The words that occur in a computation of so many digits are below `39 * columnCount n`, which
has to be a word. -/
def Admissible (digitCount : UInt64) : Prop :=
  (39 * columnCount digitCount.toNat : ℕ) ≤ Int64.maxValue.toInt

instance (digitCount : UInt64) : Decidable (Admissible digitCount) :=
  inferInstanceAs (Decidable (_ ≤ _))

theorem Admissible.lt {digitCount : UInt64} (h : Admissible digitCount) :
    39 * columnCount digitCount.toNat < 2 ^ 63 := by
  rw [Admissible, show Int64.maxValue.toInt = 2 ^ 63 - 1 from rfl] at h
  omega

theorem Admissible.lt_roundLimit {digitCount : UInt64} (h : Admissible digitCount) :
    digitCount.toNat < Machine.roundLimit := by
  have hlt := h.lt
  have hl := Exact.lt_columnCount digitCount.toNat
  rw [Machine.roundLimit]
  omega

theorem Admissible.serves {digitCount : UInt64} (h : Admissible digitCount)
    (hm : m.AgreesBelow (39 * columnCount digitCount.toNat)) (hholds : m.holds = m.isPositive) :
    m.Serves (39 * columnCount digitCount.toNat) := by
  have hpos := Exact.columnCount_pos digitCount.toNat
  exact ⟨hm, hholds, by omega, h.lt.le⟩

theorem Admissible.serves_machine {digitCount : UInt64} (h : Admissible digitCount)
    (a : Arithmetic) : (a.machine : Machine σ).Serves (39 * columnCount digitCount.toNat) :=
  h.serves (a.agreesBelow _) a.holds_eq

theorem rest_start {digitCount : UInt64} (memory : σ) (h : Admissible digitCount)
    (hm : m.Serves (39 * columnCount digitCount.toNat)) (policy : Policy) :
    ∃ s s', start m memory digitCount = .ok s ∧ s.policy = .resetBoth ∧
      rest (s.withPolicy policy) = .ok (Exact.final digitCount.toNat policy).output s' ∧
      Follows m s' digitCount.toNat (.final digitCount.toNat policy) ∧
      (Exact.final digitCount.toNat policy).Ended digitCount.toNat ∧
      ∃ s'', next s' = .ok none s'' := by
  obtain ⟨s, hs, hfollows⟩ := start_follows memory digitCount hm
  obtain ⟨hdigits, hended⟩ := Exact.final_ended policy h.lt_roundLimit
  obtain ⟨digits, s', hrest, rfl, hfollows'⟩ :=
    rest_ends (hfollows.withPolicy policy) ((Exact.sound_start _).withPolicy policy)
  rw [← Exact.final] at hfollows'
  obtain ⟨r, s'', hnext, rfl, -⟩ := next_ends hfollows' (Exact.sound_final digitCount.toNat policy)
  refine ⟨s, s', hs, hfollows.policy, ?_, hfollows', hended, s'', ?_⟩
  · rw [hrest, hdigits]
  · rw [hnext, hended.next]

end PiDigits.Spigot
