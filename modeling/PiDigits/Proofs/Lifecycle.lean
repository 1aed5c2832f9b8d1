import PiDigits.Proofs.CarryRun
import PiDigits.Proofs.FaultlessRun
import PiDigits.Proofs.StepsMade

namespace PiDigits

open Work

namespace Held

def Taken.told (taken : Taken) (sweep : ℕ) (carry : Word) : List Event :=
  .sweepCompleted sweep carry ::
    (if taken.kind = .nine then [.nineBuffered sweep taken.held.nines] else []) ++
    Exact.emitted sweep taken.released

def told (carries : List Word) (taken : List Taken) : List Event :=
  ((carries.zip taken).mapIdx fun k step => step.2.told (k + 1) step.1).flatten

theorem told_concat {carries : List Word} {taken : List Taken}
    (h : carries.length = taken.length) (carry : Word) (last : Taken) :
    told (carries ++ [carry]) (taken ++ [last]) =
      told carries taken ++ last.told (carries.length + 1) carry := by
  rw [told, List.zip_append h, List.zip_cons_cons, List.zip_nil_left, List.mapIdx_concat,
    List.flatten_append, List.length_zip, ← h, Nat.min_self, List.flatten_singleton, told]

end Held

namespace Waiting

theorem released_ne_nil {w : Waiting} {carry : ℕ} (hh : w.holding = true) (hc : carry ≠ 9) :
    w.released carry ≠ [] := by
  rw [released, front, if_pos hh]
  cases hk : kind carry with
  | nine => exact absurd (kind_eq_nine_iff.1 hk) hc
  | ten => exact List.cons_ne_nil _ _
  | settled => exact List.cons_ne_nil _ _

end Waiting

namespace Exact

variable {n : ℕ} {t : Exact}

theorem Counted.digits_eq_nil_iff (h : t.Counted n) (hl : t.carries.length < n) :
    t.digits = [] ↔ t.carry = 9 ∨ t.carries.length = 0 := by
  constructor
  · intro hdigits
    by_contra hne
    rw [not_or, List.length_eq_zero_iff] at hne
    obtain ⟨-, hholding, -⟩ := h.counted hne.2
    exact Waiting.released_ne_nil hholding hne.1 hdigits
  · rintro (hnine | hfresh)
    · rw [digits, hnine]
      rfl
    · rw [List.length_eq_zero_iff] at hfresh
      rw [digits, h.first_carry (Nat.one_le_of_lt hl) hfresh, (h.fresh hfresh).2.1]
      rfl

theorem Counted.sweepEvents_eq (h : t.Counted n) (hl : t.carries.length < n) :
    t.sweepEvents = .sweepCompleted (t.carries.length + 1) (Int64.ofNat t.carry) ::
      if t.carry = 9 then
        [.nineBuffered (t.carries.length + 1) (Int64.ofNat (t.waiting.nines + 1))]
      else if t.carries.length = 0 then []
      else [.digitsEmitted (t.carries.length + 1) (Digit.row t.digits)] := by
  have hnil := h.digits_eq_nil_iff hl
  rw [sweepEvents, emitted]
  by_cases hnine : t.carry = 9
  · rw [hnil.2 (.inl hnine), if_pos hnine, if_pos hnine]
    rfl
  · rw [if_neg hnine, if_neg hnine]
    by_cases hfresh : t.carries.length = 0
    · rw [hnil.2 (.inr hfresh), if_pos hfresh]
      rfl
    · rw [if_neg hfresh, if_neg (by simp [hnil, hnine, hfresh])]
      rfl

theorem Counted.endEvents_eq (h : t.Counted n) (hpos : 1 ≤ t.carries.length) :
    ∃ digit, t.waiting.front = [digit] ∧
      t.endEvents = [.digitsEmitted t.carries.length (Digit.row [digit]),
        .finished t.carries.length (t.settled.length + t.waiting.front.length)] := by
  obtain ⟨-, hholding, -⟩ := h.counted (List.length_pos_iff.1 hpos)
  have hfront : t.waiting.front = [.ofNat t.waiting.predigit] := by
    rw [Waiting.front, if_pos hholding]
  refine ⟨_, hfront, ?_⟩
  rw [endEvents, hfront]
  rfl

theorem sweepEvents_told (t : Exact) :
    t.sweepEvents =
      (⟨Waiting.kind t.carry, (t.waiting.after t.policy t.carry).toHeld, t.digits⟩ :
        Held.Taken).told (t.carries.length + 1) (Int64.ofNat t.carry) := by
  rw [sweepEvents, Held.Taken.told]
  by_cases hnine : t.carry = 9
  · rw [if_pos hnine, if_pos (Waiting.kind_eq_nine_iff.2 hnine), hnine]
    rfl
  · rw [if_neg hnine, if_neg (mt Waiting.kind_eq_nine_iff.1 hnine)]

theorem Logged.map_snd (h : t.Logged) :
    (t.events.filterMap Event.carry?).map Prod.snd = t.carries.map Int64.ofNat := by
  rw [h.logged]
  apply List.ext_getElem
  · simp
  · simp

end Exact

namespace Spigot

variable {σ : Type} {m : Machine σ} {n index : ℕ} {s s' : Spigot σ} {t t' : Exact} {one : Made σ}
  {made : List (Made σ)} {result : Except Fault (Option (List Digit))}

/-- What a step brings and publishes that comes after `index` others: one sweep for each of the
first `n`, then the end, then nothing. -/
structure Staged (n index : ℕ) (made : Made σ) : Prop where
  sweep : index < n → ∃ digits carry s', reducedCarry made.before = .ok carry s' ∧
    made.result = .ok (some digits) ∧
    made.published = .sweepCompleted (index + 1) carry ::
      if carry = 9 then [.nineBuffered (index + 1) made.after.held.nines]
      else if index = 0 then [] else [.digitsEmitted (index + 1) (Digit.row digits)]
  finish : index = n → ∃ digit, made.result = .ok (some [digit]) ∧
    made.published = [.digitsEmitted n (Digit.row [digit]), .finished n made.after.digitsReleased]
  idle : n < index → made.result = .ok none ∧ made.published = []
  flushed : made.after.flushed = decide (n ≤ index)
  sweepsCompleted : made.after.sweepsCompleted = .ok (min (index + 1) n)

theorem published_eq {events : List Event} (hb : Follows m one.before n t)
    (ha : Follows m one.after n t') (h : t'.events = t.events ++ events) :
    one.published = events := by
  rw [Made.published, ha.events, hb.events, h, List.drop_left]

theorem Follows.digitsReleased_end (h : Follows m s n t) (hf : t.flushed = true) :
    s.digitsReleased = t.settled.length + t.waiting.front.length := by
  rw [h.digitsReleased, Exact.output, if_pos hf, List.length_append]

theorem staged_sweep (ht : t.Fine n) (hf : t.flushed = false) (hl : t.carries.length < n)
    (hb : Follows m one.before n t) (ha : Follows m one.after n t.afterSweep)
    (hr : one.result = .ok (some t.digits)) : Staged n t.carries.length one := by
  have ht' := (Exact.kept_fine n).sweep ht hf hl
  have hcarry : Int64.ofNat t.carry = 9 ↔ t.carry = 9 :=
    Word.ofNat_inj (b := 9) (by have := ht.sound.carry_le; omega) (by norm_num)
  constructor
  case sweep =>
    intro _
    obtain ⟨_, s', hreduced, rfl⟩ : Ends reducedCarry one.before fun carry _ =>
        carry = Int64.ofNat t.carry :=
      reducedCarry_ends hb ht.sound (Nat.one_le_of_lt hl) fun _ => rfl
    refine ⟨t.digits, _, s', hreduced, hr, ?_⟩
    rw [published_eq hb ha rfl, ht.counted.sweepEvents_eq hl]
    simp only [hcarry]
    congr 1
    split
    · rename_i hnine
      rw [ha.held, Exact.afterSweep, hnine]
      rfl
    · rfl
  case finish => omega
  case idle => omega
  case flushed =>
    rw [ha.flushed, decide_eq_false (by omega)]
    exact hf
  case sweepsCompleted =>
    rw [ha.sweepsCompleted ht'.sound, Nat.min_eq_left hl, Exact.afterSweep, List.length_append]
    rfl

theorem staged_finish (ht : t.Fine n) (hn : 1 ≤ n) (hf : t.flushed = false)
    (hl : t.carries.length = n) (hb : Follows m one.before n t)
    (ha : Follows m one.after n t.afterEnd) (hr : one.result = .ok (some t.waiting.front)) :
    Staged n n one := by
  have ht' := (Exact.kept_fine n).finish ht hf hl.ge
  constructor
  case sweep => omega
  case finish =>
    intro _
    obtain ⟨digit, hfront, hevents⟩ := ht.counted.endEvents_eq (hl ▸ hn)
    refine ⟨digit, by rw [hr, hfront], ?_⟩
    rw [published_eq hb ha rfl, hevents, hl, ha.digitsReleased_end rfl]
    rfl
  case idle => omega
  case flushed =>
    rw [ha.flushed, decide_eq_true le_rfl]
    rfl
  case sweepsCompleted =>
    rw [ha.sweepsCompleted ht'.sound, Nat.min_eq_right (Nat.le_succ n)]
    exact congrArg _ hl

theorem staged_idle (ht : t.Fine n) (hf : t.flushed = true) (hi : n < index)
    (hb : Follows m one.before n t) (ha : Follows m one.after n t) (hr : one.result = .ok none) :
    Staged n index one := by
  constructor
  case sweep => omega
  case finish => omega
  case idle =>
    exact fun _ => ⟨hr, published_eq hb ha (List.append_nil _).symm⟩
  case flushed => rw [ha.flushed, hf, decide_eq_true hi.le]
  case sweepsCompleted =>
    rw [ha.sweepsCompleted ht.sound, Nat.min_eq_right (by omega), ht.sound.complete hf]

/-- The steps made so far, against the computation on natural numbers that has come to `t`. In
`steps` is each carry with the policy that was in force. -/
structure Paced (n : ℕ) (made : List (Made σ)) (t : Exact) (steps : List (Policy × ℕ)) : Prop where
  policies : steps.map Prod.fst = (made.take n).map (·.before.policy)
  carries : steps.map Prod.snd = t.carries
  waiting : t.waiting = Waiting.empty.afterAll steps
  flushed : t.flushed = decide (n < made.length)
  events : t.events =
    Held.told (t.carries.map Int64.ofNat) (Waiting.taken steps .empty) ++
      if t.flushed then t.endEvents else []
  published : t.events = made.flatMap Made.published
  staged : ∀ index one, made[index]? = some one → Staged n index one

namespace Paced

variable {steps : List (Policy × ℕ)}

theorem length_carries (h : Paced n made t steps) : t.carries.length = min made.length n := by
  have hpolicies := congrArg List.length h.policies
  rw [List.length_map, List.length_map, List.length_take, Nat.min_comm] at hpolicies
  rw [← h.carries, List.length_map, hpolicies]

theorem staged_concat (h : Paced n made t steps) (hone : Staged n made.length one) :
    ∀ index other, (made ++ [one])[index]? = some other → Staged n index other := by
  intro index other hother
  rcases lt_trichotomy index made.length with hlt | rfl | hgt
  · rw [List.getElem?_append_left hlt] at hother
    exact h.staged index other hother
  · rw [List.getElem?_concat_length] at hother
    cases hother
    exact hone
  · rw [List.getElem?_eq_none (by simp; omega)] at hother
    cases hother

theorem published_concat (h : Paced n made t steps) (hb : Follows m one.before n t)
    (ha : Follows m one.after n t') {events : List Event} (he : t'.events = t.events ++ events) :
    t'.events = (made ++ [one]).flatMap Made.published := by
  rw [he, h.published, List.flatMap_append, List.flatMap_singleton, published_eq hb ha he]

theorem sweep (h : Paced n made t steps) (ht : t.Fine n) (hf : t.flushed = false)
    (hl : t.carries.length < n) (hb : Follows m one.before n t)
    (ha : Follows m one.after n t.afterSweep) (hr : one.result = .ok (some t.digits)) :
    Paced n (made ++ [one]) t.afterSweep (steps ++ [(t.policy, t.carry)]) := by
  have hmade : made.length = t.carries.length := by
    have hlength := h.length_carries
    omega
  have hsteps : steps.length = t.carries.length := by rw [← h.carries, List.length_map]
  constructor
  case policies =>
    rw [List.take_of_length_le (by simp; omega), List.map_append, List.map_append, h.policies,
      List.take_of_length_le (by omega), List.map_singleton, List.map_singleton, hb.policy]
  case carries => rw [List.map_append, h.carries, Exact.afterSweep, List.map_singleton]
  case waiting => rw [Waiting.afterAll_snoc, ← h.waiting, Exact.afterSweep]
  case flushed =>
    rw [List.length_append, List.length_singleton, decide_eq_false (by omega)]
    exact hf
  case events =>
    have hevents := h.events
    rw [hf, if_neg Bool.false_ne_true, List.append_nil] at hevents
    have htaken : Waiting.taken (steps ++ [(t.policy, t.carry)]) .empty =
        Waiting.taken steps .empty ++
          [⟨Waiting.kind t.carry, (t.waiting.after t.policy t.carry).toHeld, t.digits⟩] := by
      rw [Waiting.taken_append, ← h.waiting]
      rfl
    have hlength : (t.carries.map Int64.ofNat).length =
        (Waiting.taken steps .empty).length := by
      rw [List.length_map, Waiting.length_taken, hsteps]
    simp only [Exact.afterSweep, hf, Bool.false_eq_true, if_false, List.append_nil]
    rw [List.map_append, List.map_singleton, htaken, Held.told_concat hlength, hevents,
      Exact.sweepEvents_told, List.length_map]
  case published => exact h.published_concat hb ha rfl
  case staged =>
    apply h.staged_concat
    rw [hmade]
    exact staged_sweep ht hf hl hb ha hr

theorem finish (h : Paced n made t steps) (ht : t.Fine n) (hn : 1 ≤ n) (hf : t.flushed = false)
    (hl : t.carries.length = n) (hb : Follows m one.before n t)
    (ha : Follows m one.after n t.afterEnd) (hr : one.result = .ok (some t.waiting.front)) :
    Paced n (made ++ [one]) t.afterEnd steps := by
  have hmade : made.length = n := by
    have hlength := h.length_carries
    have hflushed := h.flushed
    rw [hf, eq_comm, decide_eq_false_iff_not] at hflushed
    omega
  constructor
  case policies => rw [h.policies, List.take_append_of_le_length hmade.ge]
  case carries => exact h.carries
  case waiting => exact h.waiting
  case flushed =>
    rw [List.length_append, List.length_singleton, decide_eq_true (by omega)]
    rfl
  case events =>
    have hevents := h.events
    rw [hf, if_neg Bool.false_ne_true, List.append_nil] at hevents
    rw [Exact.afterEnd, hevents, if_pos rfl]
    rfl
  case published => exact h.published_concat hb ha rfl
  case staged =>
    apply h.staged_concat
    rw [hmade]
    exact staged_finish ht hn hf hl hb ha hr

theorem idle (h : Paced n made t steps) (ht : t.Fine n) (hf : t.flushed = true)
    (hb : Follows m one.before n t) (ha : Follows m one.after n t) (hr : one.result = .ok none) :
    Paced n (made ++ [one]) t steps := by
  have hmade : n < made.length := by
    have hflushed := h.flushed
    rwa [hf, eq_comm, decide_eq_true_eq] at hflushed
  constructor
  case policies => rw [h.policies, List.take_append_of_le_length hmade.le]
  case carries => exact h.carries
  case waiting => exact h.waiting
  case flushed =>
    rw [hf, List.length_append, List.length_singleton, decide_eq_true (by omega)]
  case events => exact h.events
  case published => exact h.published_concat hb ha (List.append_nil _).symm
  case staged =>
    apply h.staged_concat
    exact staged_idle ht hf hmade hb ha hr

theorem step (h : Paced n made t steps) (ht : t.Fine n) (hn : 1 ≤ n) (one : Made σ)
    (hb : Follows m one.before n t) (ha : Follows m one.after n (t.step n).2)
    (hr : one.result = .ok (t.step n).1) : ∃ steps, Paced n (made ++ [one]) (t.step n).2 steps := by
  -- only a sweep takes in a carry, so only a sweep adds to `steps`
  by_cases hf : t.flushed = true
  · rw [Exact.step, if_pos hf] at ha hr ⊢
    exact ⟨steps, h.idle ht hf hb ha hr⟩
  by_cases hl : t.carries.length < n
  · rw [Exact.step, if_neg hf, if_pos hl] at ha hr ⊢
    exact ⟨_, h.sweep ht (by simpa using hf) hl hb ha hr⟩
  · rw [Exact.step, if_neg hf, if_neg hl] at ha hr ⊢
    have hcomplete := Nat.le_antisymm ht.sound.carries_le (Nat.le_of_not_lt hl)
    exact ⟨steps, h.finish ht hn (by simpa using hf) hcomplete hb ha hr⟩

end Paced

def Reached (m : Machine σ) (n : ℕ) (made : List (Made σ)) (s : Spigot σ) : Prop :=
  ∃ t steps, t.Fine n ∧ Follows m s n t ∧ Paced n made t steps

theorem Reached.step (h : Reached m n made s) (hn : 1 ≤ n) (hs : step s = .ok result s')
    (inside : Bool) : Reached m n (made ++ [⟨inside, s, result, s'⟩]) s' := by
  obtain ⟨t, steps, ht, hfollows, hpaced⟩ := h
  obtain ⟨hresult, hfollows'⟩ := (step_ends hfollows ht.sound).of_ok hs
  obtain ⟨steps', hpaced'⟩ :=
    hpaced.step ht hn ⟨inside, s, result, s'⟩ hfollows hfollows' hresult
  exact ⟨_, steps', (Exact.kept_fine n).step ht, hfollows', hpaced'⟩

theorem Reached.withPending (h : Reached m n made s) (pending : List Digit) :
    Reached m n made { s with pending } := by
  obtain ⟨t, steps, ht, hfollows, hpaced⟩ := h
  exact ⟨{ t with pending }, steps, (Exact.kept_fine n).pending ht pending,
    { hfollows with pending := rfl }, { hpaced with }⟩

theorem Reached.withPolicy (h : Reached m n made s) (policy : Policy) :
    Reached m n made (s.withPolicy policy) := by
  obtain ⟨t, steps, ht, hfollows, hpaced⟩ := h
  exact ⟨t.withPolicy policy, steps, ht.withPolicy policy, hfollows.withPolicy policy,
    { hpaced with }⟩

theorem kept_reached (hn : 1 ≤ n) :
    Kept fun (made : List (Made σ)) _ s => Reached m n made s where
  step h hs := h.step hn hs false
  drawn {made _ s result s'} h hpending hnone hs := by
    have hreached := h.step hn hs true
    match result with
    | .ok (some digits) => exact hreached.withPending digits
    | .ok none => exact hreached
    | .error fault =>
      obtain ⟨t, steps, ht, hfollows, -⟩ := h
      cases ((step_ends hfollows ht.sound).of_ok hs).1
  hand h _ := h.withPending _
  withPolicy h policy := h.withPolicy policy

theorem reached_start (h : Follows m s n (.start n)) : Reached m n [] s := by
  refine ⟨.start n, [], Exact.fine_start n, h, ?_⟩
  exact ⟨by rw [List.take_nil]; rfl, rfl, rfl, rfl, rfl, rfl, fun _ _ hone => by cases hone⟩

/-- The log at `s`, told again from the carries in it and the policies that were in force: they are
taken in from the start, and `last` is what is let go at the end. -/
structure Retold (m : Machine σ) (n : ℕ) (made : List (Made σ)) (s : Spigot σ)
    (taken : List Held.Taken) (last : List Digit) : Prop where
  length : taken.length = min made.length n
  takeAll : Gives (Held.takeAll m (((made.take n).map (·.before.policy)).zip
    ((s.events.filterMap Event.carry?).map Prod.snd)) .empty) (.ok taken)
  held : Held.empty.afterTaken taken = s.held
  flush : s.held.flush [] = .ok last
  events : s.events = Held.told ((s.events.filterMap Event.carry?).map Prod.snd) taken ++
    if n < made.length then [.digitsEmitted n (Digit.row last), .finished n s.digitsReleased] else []

theorem Paced.retold {steps : List (Policy × ℕ)} (h : Paced n made t steps) (ht : t.Fine n)
    (hf : Follows m s n t) (hn : 1 ≤ n) :
    Retold m n made s (Waiting.taken steps .empty) t.waiting.front := by
  have hsnd : (s.events.filterMap Event.carry?).map Prod.snd = t.carries.map Int64.ofNat := by
    rw [hf.events]
    exact ht.logged.map_snd
  have hlength : steps.length = t.carries.length := by rw [← h.carries, List.length_map]
  have hempty : Waiting.empty.toHeld = Held.empty := rfl
  constructor
  case length => rw [Waiting.length_taken, hlength, h.length_carries]
  case takeAll =>
    have hle : ∀ step ∈ steps, step.2 ≤ 10 := by
      intro step hstep
      apply ht.logged.carries_le
      rw [← h.carries]
      exact List.mem_map_of_mem hstep
    have hlimit : Waiting.empty.nines + steps.length ≤ 39 * columnCount n := by
      have hcarries := ht.sound.carries_le
      have hcolumns := Exact.lt_columnCount n
      change 0 + steps.length ≤ _
      omega
    have hgives := Waiting.takeAll_gives hf.serves hle (Nat.zero_le _) hlimit
    rw [hf.machine, hempty] at hgives
    rwa [hsnd, ← h.policies, ← h.carries, List.map_map, List.zip_map']
  case held => rw [← hempty, Waiting.afterTaken_taken, ← h.waiting, hf.held]
  case flush => rw [hf.held, Waiting.flush_toHeld ht.sound.predigit_le, List.nil_append]
  case events =>
    rw [hsnd, hf.events, h.events, h.flushed]
    congr 1
    by_cases hover : n < made.length
    · have hflushed : t.flushed = true := by rw [h.flushed, decide_eq_true hover]
      have hcomplete := ht.sound.complete hflushed
      obtain ⟨digit, hfront, hevents⟩ := ht.counted.endEvents_eq (hcomplete ▸ hn)
      rw [decide_eq_true hover, if_pos rfl, if_pos hover, hevents, hcomplete,
        hf.digitsReleased_end hflushed, hfront]
    · rw [decide_eq_false hover, if_neg hover, if_neg Bool.false_ne_true]

structure Lifecycle (m : Machine σ) (n : ℕ) (s : Spigot σ) (calls : List Call) (s' : Spigot σ) :
    Prop where
  steps : ∀ made ∈ madeAll calls s, step made.before = .ok made.result made.after
  own : ((madeAll calls s).filter (!·.inside)).length = calls.count .step
  staged : ∀ index made, (madeAll calls s)[index]? = some made → Staged n index made
  events : s'.events = (madeAll calls s).flatMap Made.published
  flushed : s'.flushed = decide (n < (madeAll calls s).length)
  sweepsCompleted : s'.sweepsCompleted = .ok (min (madeAll calls s).length n)
  retold : ∃ taken last, Retold m n (madeAll calls s) s' taken last

theorem performAll_lifecycle (a : Arithmetic) (digitCount : UInt64) (h : Admissible digitCount)
    (hn : 1 ≤ digitCount.toNat) :
    ∃ s : Spigot Unit, start a.machine () digitCount = .ok s ∧
      ∀ calls, ∃ replies s', performAll calls s = .ok replies s' ∧
        Lifecycle a.machine digitCount.toNat s calls s' := by
  obtain ⟨s, hs, hfollows⟩ := start_follows () digitCount (h.serves_machine a)
  refine ⟨s, hs, fun calls => ?_⟩
  obtain ⟨replies, s', hs', -⟩ := performAll_ends hfollows (Exact.sound_start _) calls
  obtain ⟨t, steps, ht, hfollows', hpaced⟩ := (kept_reached hn).run (reached_start hfollows) hs'
  refine ⟨replies, s', hs', ?_⟩
  exact {
    steps := fun _ => step_of_mem_madeAll
    own := (own_steps hs').1
    staged := hpaced.staged
    events := by rw [hfollows'.events, hpaced.published]
    flushed := by rw [hfollows'.flushed, hpaced.flushed]
    sweepsCompleted := by rw [hfollows'.sweepsCompleted ht.sound, hpaced.length_carries]
    retold := ⟨_, _, hpaced.retold ht hfollows' hn⟩ }

theorem performAll_lifecycle_counting_forty :
    Admissible 40 ∧ 1 ≤ (40 : UInt64).toNat ∧
      ∃ (s s' : Spigot Unit) (replies : List Reply),
        start Arithmetic.counting.machine () 40 = .ok s ∧
        performAll [.step, .next, .withPolicy .keepPredigit, .step] s = .ok replies s' ∧
        Lifecycle .counting 40 s [.step, .next, .withPolicy .keepPredigit, .step] s' := by
  obtain ⟨s, hs, hcalls⟩ := performAll_lifecycle .counting 40 (by decide) (by decide)
  obtain ⟨replies, s', hs', hlifecycle⟩ := hcalls [.step, .next, .withPolicy .keepPredigit, .step]
  exact ⟨by decide, by decide, s, s', replies, hs, hs', hlifecycle⟩

end Spigot

end PiDigits
