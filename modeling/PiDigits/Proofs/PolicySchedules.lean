import PiDigits.Proofs.CarryPolicy
import PiDigits.Proofs.SpigotRun

namespace PiDigits

open Work

variable {σ : Type}

def Call.setsPolicy : Call → Bool
  | .withPolicy _ => true
  | _ => false

def Reply.blank? : Reply → Option Reply
  | .stepped (.ok (some digits)) => some (.stepped (.ok (some (digits.map fun _ => .zero))))
  | .handed (some _) => some (.handed (some .zero))
  | .policySet => none
  | reply => some reply

def Event.blank : Event → Event
  | .digitsEmitted sweep digits =>
    .digitsEmitted sweep (String.ofList (List.replicate digits.length '0'))
  | event => event

namespace Waiting

structure Abreast (w w' : Waiting) : Prop where
  nines : w.nines = w'.nines
  holding : w.holding = w'.holding

variable {w w' : Waiting}

theorem Abreast.after (h : Abreast w w') (policy policy' : Policy) (carry : ℕ) :
    Abreast (w.after policy carry) (w'.after policy' carry) := by
  rw [Waiting.after, Waiting.after]
  cases kind carry with
  | nine => exact ⟨by rw [h.nines], h.holding⟩
  | ten => exact ⟨rfl, rfl⟩
  | settled => exact ⟨rfl, rfl⟩

theorem Abreast.length_front (h : Abreast w w') : w.front.length = w'.front.length := by
  rw [Waiting.front, Waiting.front, h.holding]
  split <;> rfl

theorem Abreast.length_released (h : Abreast w w') (carry : ℕ) :
    (w.released carry).length = (w'.released carry).length := by
  rw [Waiting.released, Waiting.released, h.nines]
  cases kind carry with
  | nine => rfl
  | ten => rfl
  | settled => simp [h.length_front]

end Waiting

namespace Exact

structure Abreast (t t' : Exact) : Prop where
  columns : t.columns = t'.columns
  waiting : t.waiting.Abreast t'.waiting
  carries : t.carries = t'.carries
  settled : t.settled.length = t'.settled.length
  flushed : t.flushed = t'.flushed
  pending : t.pending.length = t'.pending.length
  events : t.events.map Event.blank = t'.events.map Event.blank

variable {n : ℕ} {t t' t'' : Exact}

theorem Abreast.refl (t : Exact) : Abreast t t := ⟨rfl, ⟨rfl, rfl⟩, rfl, rfl, rfl, rfl, rfl⟩

theorem Abreast.trans_symm (h : Abreast t t'') (h' : Abreast t' t'') : Abreast t t' where
  columns := h.columns.trans h'.columns.symm
  waiting := ⟨h.waiting.nines.trans h'.waiting.nines.symm,
    h.waiting.holding.trans h'.waiting.holding.symm⟩
  carries := h.carries.trans h'.carries.symm
  settled := h.settled.trans h'.settled.symm
  flushed := h.flushed.trans h'.flushed.symm
  pending := h.pending.trans h'.pending.symm
  events := h.events.trans h'.events.symm

theorem Abreast.length_output (h : Abreast t t') : t.output.length = t'.output.length := by
  rw [output, output, h.flushed, List.length_append, List.length_append, h.settled]
  split
  · rw [h.waiting.length_front]
  · rfl

theorem map_blank_emitted {digits digits' : List Digit} (h : digits.length = digits'.length)
    (sweep : ℕ) :
    (emitted sweep digits).map Event.blank = (emitted sweep digits').map Event.blank := by
  cases digits <;> cases digits' <;> simp_all [emitted, Event.blank, Digit.row]

theorem Abreast.carry (h : Abreast t t') : t.carry = t'.carry :=
  congrArg (fun columns => (Radix.reduce columns).1) h.columns

theorem Abreast.length_digits (h : Abreast t t') : t.digits.length = t'.digits.length := by
  rw [digits, digits, h.carry]
  exact h.waiting.length_released _

theorem Abreast.afterSweep (h : Abreast t t') : Abreast t.afterSweep t'.afterSweep where
  columns := congrArg (fun columns => (Radix.reduce columns).2) h.columns
  waiting := by
    simp only [Exact.afterSweep, h.carry]
    exact h.waiting.after _ _ _
  carries := by simp only [Exact.afterSweep, h.carry, h.carries]
  settled := by simp only [Exact.afterSweep, List.length_append, h.settled, h.length_digits]
  flushed := h.flushed
  pending := h.pending
  events := by
    simp only [Exact.afterSweep, sweepEvents, List.map_append, List.map_cons, h.events, h.carry,
      h.carries, h.waiting.nines, map_blank_emitted h.length_digits]

theorem Abreast.afterEnd (h : Abreast t t') : Abreast t.afterEnd t'.afterEnd :=
  { h with
    flushed := rfl
    events := by
      simp only [Exact.afterEnd, endEvents, List.map_append, h.events, h.carries, h.settled,
        h.waiting.length_front, map_blank_emitted h.waiting.length_front] }

theorem Abreast.step (h : Abreast t t') :
    (t.step n).1.map List.length = (t'.step n).1.map List.length ∧
      Abreast (t.step n).2 (t'.step n).2 := by
  rw [Exact.step, Exact.step, h.flushed, h.carries]
  split
  · exact ⟨rfl, h⟩
  · split
    · exact ⟨congrArg some h.length_digits, h.afterSweep⟩
    · exact ⟨congrArg some h.waiting.length_front, h.afterEnd⟩

theorem Abreast.advance (h : Abreast t t') :
    (t.advance n).1.map Option.isSome = (t'.advance n).1.map Option.isSome ∧
      Abreast (t.advance n).2 (t'.advance n).2 := by
  have hlength := h.pending
  obtain ⟨hstep, habreast⟩ := h.step (n := n)
  rw [Exact.advance, Exact.advance]
  cases hp : t.pending with
  | cons digit rest =>
    cases hp' : t'.pending with
    | cons digit' rest' =>
      rw [hp, hp'] at hlength
      exact ⟨rfl, { h with pending := Nat.succ_injective hlength }⟩
    | nil => simp [hp, hp'] at hlength
  | nil =>
    obtain hp' : t'.pending = [] := by simpa [hp] using hlength.symm
    rw [hp']
    dsimp only
    rw [h.flushed]
    split
    · exact ⟨rfl, h⟩
    · refine ⟨rfl, { habreast with pending := ?_ }⟩
      cases hd : (t.step n).1 <;> cases hd' : (t'.step n).1 <;> simp_all

theorem Abreast.next (h : Abreast t t') :
    (t.next n).1.isSome = (t'.next n).1.isSome ∧ Abreast (t.next n).2 (t'.next n).2 := by
  -- one computation leaves the answer open exactly when the other does
  fun_induction Exact.next n t generalizing t' with
  | case1 t digit? t₁ he =>
    obtain ⟨hanswer, habreast⟩ := h.advance (n := n)
    rw [he] at hanswer habreast
    cases he' : t'.advance n with
    | mk answer t₁' =>
      rw [he'] at hanswer habreast
      cases answer with
      | none => cases hanswer
      | some digit?' =>
        rw [next_of_some he']
        exact ⟨Option.some.inj hanswer, habreast⟩
  | case2 t t₁ he ih =>
    obtain ⟨hanswer, habreast⟩ := h.advance (n := n)
    rw [he] at hanswer habreast
    cases he' : t'.advance n with
    | mk answer t₁' =>
      rw [he'] at hanswer habreast
      cases answer with
      | none =>
        rw [next_of_none he']
        exact ih habreast
      | some digit?' => cases hanswer

theorem blank?_stepped {digits digits' : Option (List Digit)}
    (h : digits.map List.length = digits'.map List.length) :
    Reply.blank? (.stepped (.ok digits)) = Reply.blank? (.stepped (.ok digits')) := by
  cases digits <;> cases digits' <;> simp_all [Reply.blank?, List.map_const']

theorem blank?_handed {digit? digit?' : Option Digit} (h : digit?.isSome = digit?'.isSome) :
    Reply.blank? (.handed digit?) = Reply.blank? (.handed digit?') := by
  cases digit? <;> cases digit?' <;> simp_all [Reply.blank?]

theorem Abreast.calls_filter (h : Abreast t t') (calls : List Call) :
    (t.calls n calls).1.filterMap Reply.blank? =
        (t'.calls n (calls.filter fun call => !call.setsPolicy)).1.filterMap Reply.blank? ∧
      Abreast (t.calls n calls).2 (t'.calls n (calls.filter fun call => !call.setsPolicy)).2 := by
  induction calls generalizing t t' with
  | nil => exact ⟨rfl, h⟩
  | cons call calls ih =>
    cases call with
    | step =>
      obtain ⟨hdigits, habreast⟩ := h.step (n := n)
      obtain ⟨hreplies, habreast⟩ := ih habreast
      refine ⟨?_, habreast⟩
      simp only [Exact.calls, Exact.call, List.filter_cons_of_pos, List.filterMap_cons,
        blank?_stepped hdigits, Call.setsPolicy, Bool.not_false, hreplies]
    | next =>
      obtain ⟨hdigit, habreast⟩ := h.next (n := n)
      obtain ⟨hreplies, habreast⟩ := ih habreast
      refine ⟨?_, habreast⟩
      simp only [Exact.calls, Exact.call, List.filter_cons_of_pos, List.filterMap_cons,
        blank?_handed hdigit, Call.setsPolicy, Bool.not_false, hreplies]
    | withPolicy policy =>
      have hset : Abreast (t.withPolicy policy) t' := { h with }
      exact ih hset

end Exact

namespace Spigot

/-- Two computations that may differ in their policies and in which digits they have released. All
else is the same: the columns, the carries, how many digits wait and how many are released, and
every event but for the digits in it. -/
structure SamePace (s s' : Spigot σ) : Prop where
  columns : s.columns = s'.columns
  nines : s.held.nines = s'.held.nines
  holding : s.held.holding = s'.held.holding
  nextSweep : s.nextSweep = s'.nextSweep
  flushed : s.flushed = s'.flushed
  pending : s.pending.length = s'.pending.length
  digitsReleased : s.digitsReleased = s'.digitsReleased
  fault? : s.fault? = s'.fault?
  events : s.events.map Event.blank = s'.events.map Event.blank

theorem Follows.samePace {m : Machine σ} {n : ℕ} {s s' : Spigot σ} {t t' : Exact}
    (h : Follows m s n t) (h' : Follows m s' n t') (ha : t.Abreast t') : SamePace s s' where
  columns := by rw [h.columns, h'.columns, ha.columns]
  nines := by
    rw [h.held, h'.held]
    exact congrArg Int64.ofNat ha.waiting.nines
  holding := by
    rw [h.held, h'.held]
    exact ha.waiting.holding
  nextSweep := by rw [h.nextSweep, h'.nextSweep, ha.carries]
  flushed := by rw [h.flushed, h'.flushed, ha.flushed]
  pending := by rw [h.pending, h'.pending, ha.pending]
  digitsReleased := by rw [h.digitsReleased, h'.digitsReleased, ha.length_output]
  fault? := by rw [h.fault?, h'.fault?]
  events := by rw [h.events, h'.events, ha.events]

theorem Follows.performAll_samePace {m : Machine σ} {n : ℕ} {s : Spigot σ} {t : Exact}
    (h : Follows m s n t) (hs : t.Sound n) {calls calls' : List Call}
    (hcalls : (calls.filter fun call => !call.setsPolicy) =
      calls'.filter fun call => !call.setsPolicy) :
    ∃ replies replies' s₁ s₁', performAll calls s = .ok replies s₁ ∧
      performAll calls' s = .ok replies' s₁' ∧
      replies.filterMap Reply.blank? = replies'.filterMap Reply.blank? ∧ SamePace s₁ s₁' := by
  obtain ⟨_, s₁, hs₁, rfl, hfollows⟩ := performAll_ends h hs calls
  obtain ⟨_, s₁', hs₁', rfl, hfollows'⟩ := performAll_ends h hs calls'
  obtain ⟨hreplies, habreast⟩ := (Exact.Abreast.refl t).calls_filter (n := n) calls
  obtain ⟨hreplies', habreast'⟩ := (Exact.Abreast.refl t).calls_filter (n := n) calls'
  rw [← hcalls] at hreplies' habreast'
  exact ⟨_, _, s₁, s₁', hs₁, hs₁', hreplies.trans hreplies'.symm,
    hfollows.samePace hfollows' (habreast.trans_symm habreast')⟩

theorem policy_reaches_predigit_only (a : Arithmetic) :
    (∀ (h : Held) (carries : List Word), h.Ready →
      (∀ carry ∈ carries, 0 ≤ carry ∧ carry ≤ 10) →
      h.nines.toInt + carries.length ≤ Int64.maxValue.toInt →
      ∃ reset kept, Gives (Held.takeAll (a.machine : Machine σ)
          (carries.map (Prod.mk .resetBoth)) h) (.ok reset) ∧
        Gives (Held.takeAll (a.machine : Machine σ)
          (carries.map (Prod.mk .keepPredigit)) h) (.ok kept) ∧
        h.Strays carries reset kept) ∧
    ∀ digitCount, Admissible digitCount → ∃ s : Spigot Unit,
      start a.machine () digitCount = .ok s ∧ ∀ calls calls' : List Call,
        (calls.filter fun call => !call.setsPolicy) =
          (calls'.filter fun call => !call.setsPolicy) →
        ∃ replies replies' t t', performAll calls s = .ok replies t ∧
          performAll calls' s = .ok replies' t' ∧
          replies.filterMap Reply.blank? = replies'.filterMap Reply.blank? ∧ SamePace t t' := by
  constructor
  · intro h carries hh hc hfit
    obtain ⟨numbers, rfl, hnumbers⟩ := Held.exists_carries hc
    rw [List.length_map] at hfit
    obtain ⟨w, rfl, hw, -, htaken⟩ := hh.takeAll_gives (σ := σ) a hnumbers hfit
    exact ⟨_, _, htaken _, htaken _, Held.strays_taken hw hnumbers⟩
  · intro digitCount h
    obtain ⟨s, hs, hfollows⟩ := start_follows () digitCount (h.serves_machine a)
    exact ⟨s, hs, fun calls calls' hcalls =>
      hfollows.performAll_samePace (Exact.sound_start _) hcalls⟩

theorem policy_reaches_predigit_only_thirty_four :
    (Held.pending 3 2).Ready ∧ (∀ carry ∈ [10, 9, 10, 5], (0 : Word) ≤ carry ∧ carry ≤ 10) ∧
      (Held.pending 3 2).nines.toInt + [10, 9, 10, 5].length ≤ Int64.maxValue.toInt ∧
      (∃ reset kept, Gives (Held.takeAll (Arithmetic.counting.machine : Machine Unit)
          ([10, 9, 10, 5].map (Prod.mk .resetBoth)) (.pending 3 2)) (.ok reset) ∧
        Gives (Held.takeAll (Arithmetic.counting.machine : Machine Unit)
          ([10, 9, 10, 5].map (Prod.mk .keepPredigit)) (.pending 3 2)) (.ok kept) ∧
        (Held.pending 3 2).Strays [10, 9, 10, 5] reset kept) ∧
      Admissible 34 ∧ ∃ (s t t' : Spigot Unit) (replies replies' : List Reply),
        start Arithmetic.counting.machine () 34 = .ok s ∧
        performAll (List.replicate 35 .step) s = .ok replies t ∧
        performAll (.withPolicy .keepPredigit :: List.replicate 35 .step) s = .ok replies' t' ∧
        SamePace t t' := by
  have hready : (Held.pending 3 2).Ready := .inr ⟨3, 2, rfl, by decide, by decide, by decide⟩
  have hc : ∀ carry ∈ [10, 9, 10, 5], (0 : Word) ≤ carry ∧ carry ≤ 10 := by
    simp only [List.forall_mem_cons]
    exact ⟨by decide, by decide, by decide, by decide, List.forall_mem_nil _⟩
  have hfit : (Held.pending 3 2).nines.toInt + [(10 : Word), 9, 10, 5].length ≤
      Int64.maxValue.toInt := by decide
  obtain ⟨hrows, hruns⟩ := policy_reaches_predigit_only (σ := Unit) .counting
  obtain ⟨s, hs, hcalls⟩ := hruns 34 (by decide)
  obtain ⟨replies, replies', t, t', ht, ht', -, hpace⟩ :=
    hcalls (List.replicate 35 .step) (.withPolicy .keepPredigit :: List.replicate 35 .step) rfl
  exact ⟨hready, hc, hfit, hrows _ _ hready hc hfit, by decide, s, t, t', replies, replies', hs,
    ht, ht', hpace⟩

end Spigot

end PiDigits
