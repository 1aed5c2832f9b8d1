import PiDigits.Machine.Scripted
import PiDigits.Proofs.DirectRun
import PiDigits.Proofs.StepsMade

namespace PiDigits

def Event.text? : Event → Option String
  | .digitsEmitted _ digits => some digits
  | _ => none

def Event.total? : Event → Option ℕ
  | .finished _ total => some total
  | _ => none

namespace Digit

def rows (buffers : List (List Digit)) : List String := (buffers.filter (!·.isEmpty)).map row

theorem rows_append (buffers more : List (List Digit)) :
    rows (buffers ++ more) = rows buffers ++ rows more := by
  rw [rows, rows, rows, List.filter_append, List.map_append]

theorem length_row (digits : List Digit) : (row digits).length = digits.length := by
  rw [row, String.length_ofList, List.length_map]

theorem join_map_row (buffers : List (List Digit)) :
    String.join (buffers.map row) = row buffers.flatten := by
  induction buffers with
  | nil => rfl
  | cons digits buffers ih =>
    rw [List.map_cons, String.join_cons, ih, List.flatten_cons, row_append]

theorem join_rows (buffers : List (List Digit)) :
    String.join (rows buffers) = row buffers.flatten := by
  rw [rows, join_map_row, List.flatten_filter_not_isEmpty]

theorem sum_length_rows (buffers : List (List Digit)) :
    ((rows buffers).map String.length).sum = buffers.flatten.length := by
  rw [rows, List.map_map, ← List.flatten_filter_not_isEmpty, List.length_flatten]
  congr 1
  exact List.map_congr_left fun digits _ => length_row digits

end Digit

namespace Held

def Releasable (h : Held) : Prop := 0 ≤ h.predigit ∧ h.predigit ≤ 9

theorem releasable_empty : empty.Releasable := ⟨by decide, by decide⟩

theorem Releasable.flush {h : Held} (hr : h.Releasable) : ∃ digits, h.flush [] = .ok digits := by
  have hword : Digit.ofWord h.predigit = .ok ⟨h.predigit.toCount.toUInt8⟩ := by
    have hr' : 0 ≤ h.predigit ∧ h.predigit ≤ 9 := hr
    rw [Digit.ofWord, Digit.ofWord?, if_pos hr']
  rw [Held.flush, front, hword]
  split
  · exact ⟨_, rfl⟩
  · exact ⟨_, rfl⟩

theorem Takes.releasable {policy : Policy} {carry : Word} {h h' : Held}
    {kind : Except Fault CarryKind} {digits : List Digit} (ht : h.Takes policy carry kind h' digits)
    (hr : h.Releasable) : h'.Releasable := by
  cases ht with
  | nine nines => exact hr
  | ten count hraised =>
    by_cases hp : policy = .resetBoth
    · rw [Releasable, if_pos hp]
      decide
    · rw [Releasable, if_neg hp]
      exact hr
  | settled count nines hdigit hfront => exact (Digit.ofWord_eq_ok hdigit).1
  | refused hw => exact hr

end Held

namespace Spigot

variable {σ : Type} {m : Machine σ} {s s' : Spigot σ} {calls : List Call} {replies : List Reply}
  {result : Except Fault (Option (List Digit))}

theorem events_append {notices : List Notice} (h : s'.journal.toList = s.journal.toList ++ notices) :
    s'.events = s.events ++ notices.filterMap Notice.event? := by
  rw [events, h, List.filterMap_append, events]

theorem filterMap_event?_sweepNotices (sweep : ℕ) (carry : Word) (kind : CarryKind) (nines : Word)
    (digits : List Digit) :
    (sweepNotices sweep carry kind nines digits).filterMap Notice.event? =
      .sweepCompleted sweep carry ::
        ((if kind = .nine then [.nineBuffered sweep nines] else []) ++
          Exact.emitted sweep digits) := by
  rw [sweepNotices, List.filterMap_append, released_eq]
  by_cases h : kind = .nine
  · rw [if_pos h, if_pos h]
    rfl
  · rw [if_neg h, if_neg h]
    rfl

theorem filterMap_event?_endNotices (s : Spigot σ) (sweeps : ℕ) (digits : List Digit) :
    (s.endNotices sweeps digits).filterMap Notice.event? =
      Exact.emitted sweeps digits ++ [.finished sweeps (s.digitsReleased + digits.length)] := by
  rw [endNotices, List.filterMap_append, List.filterMap_cons, List.filterMap_append,
    released_eq]
  by_cases h : 0 < s.held.nines
  · rw [if_pos h]
    rfl
  · rw [if_neg h]
    rfl

theorem filterMap_text?_sweepNotices (sweep : ℕ) (carry : Word) (kind : CarryKind) (nines : Word)
    (digits : List Digit) :
    ((sweepNotices sweep carry kind nines digits).filterMap Notice.event?).filterMap Event.text? =
      Digit.rows [digits] := by
  rw [filterMap_event?_sweepNotices]
  cases kind <;> cases digits <;> rfl

theorem filterMap_total?_sweepNotices (sweep : ℕ) (carry : Word) (kind : CarryKind) (nines : Word)
    (digits : List Digit) :
    ((sweepNotices sweep carry kind nines digits).filterMap Notice.event?).filterMap Event.total? =
      [] := by
  rw [filterMap_event?_sweepNotices]
  cases kind <;> cases digits <;> rfl

theorem filterMap_text?_endNotices (s : Spigot σ) (sweeps : ℕ) (digits : List Digit) :
    ((s.endNotices sweeps digits).filterMap Notice.event?).filterMap Event.text? =
      Digit.rows [digits] := by
  rw [filterMap_event?_endNotices]
  cases digits <;> rfl

theorem filterMap_total?_endNotices (s : Spigot σ) (sweeps : ℕ) (digits : List Digit) :
    ((s.endNotices sweeps digits).filterMap Notice.event?).filterMap Event.total? =
      [s.digitsReleased + digits.length] := by
  rw [filterMap_event?_endNotices]
  cases digits <;> rfl

theorem releasable_drawn (h : s.held.Releasable) : (drawn result s).held.Releasable := by
  match result with
  | .ok (some digits) => exact h
  | .ok none => exact h
  | .error fault => exact h

namespace Stepped

theorem releasable (h : Stepped s result s') (hr : s.held.Releasable) : s'.held.Releasable := by
  cases h with
  | idle hf => exact hr
  | refused memory columns hf hw => exact hr
  | swept memory columns hf htakes hjournal => exact htakes.releasable hr
  | ended memory hf hflush hsweeps hjournal => exact hr

theorem digitsReleased (h : Stepped s result s') :
    s'.digitsReleased = s.digitsReleased + (brought result).length := by
  cases h <;> rfl

theorem texts (h : Stepped s result s') :
    s'.events.filterMap Event.text? =
      s.events.filterMap Event.text? ++ Digit.rows [brought result] := by
  cases h with
  | idle hf => exact (List.append_nil _).symm
  | refused memory columns hf hw => exact (List.append_nil _).symm
  | swept memory columns hf htakes hjournal =>
    rw [events_append hjournal, List.filterMap_append, filterMap_text?_sweepNotices]
    rfl
  | ended memory hf hflush hsweeps hjournal =>
    rw [events_append hjournal, List.filterMap_append, filterMap_text?_endNotices]
    rfl

end Stepped

structure Closed (s : Spigot σ) : Prop where
  totals : s.events.filterMap Event.total? = if s.flushed then [s.digitsReleased] else []
  last : s.flushed = true → ∃ sweeps, s.events.getLast? = some (.finished sweeps s.digitsReleased)

theorem Stepped.closed (h : Stepped s result s') (hs : s.Closed) : s'.Closed := by
  cases h with
  | idle hf => exact hs
  | refused memory columns hf hw => exact ⟨hs.totals, hs.last⟩
  | swept memory columns hf htakes hjournal =>
    refine ⟨?_, fun hflushed => ?_⟩
    · rw [events_append hjournal, List.filterMap_append, filterMap_total?_sweepNotices,
        List.append_nil]
      change s.events.filterMap Event.total? = if s.flushed then _ else []
      rw [hs.totals, hf]
      rfl
    · cases hf.symm.trans hflushed
  | @ended sweeps _ _ memory hf hflush hsweeps hjournal =>
    refine ⟨?_, fun _ => ⟨sweeps, ?_⟩⟩
    · rw [events_append hjournal, List.filterMap_append, filterMap_total?_endNotices, hs.totals, hf]
      rfl
    · rw [events_append hjournal, filterMap_event?_endNotices, ← List.append_assoc,
        List.getLast?_concat]

theorem Closed.drawn (h : s.Closed) (result : Except Fault (Option (List Digit))) :
    (drawn result s).Closed := by
  constructor
  · rw [events_drawn, flushed_drawn, digitsReleased_drawn, h.totals]
  · rw [events_drawn, flushed_drawn, digitsReleased_drawn]
    exact h.last

structure Ledger (made : List (Made σ)) (handed : List Digit) (s : Spigot σ) : Prop where
  texts : s.events.filterMap Event.text? = Digit.rows (made.map Made.released)
  released : s.digitsReleased = (made.flatMap Made.released).length
  handed : handed ++ s.pending = (made.filter Made.inside).flatMap Made.released
  closed : s.Closed

theorem Ledger.step {made : List (Made σ)} {handed : List Digit} (h : Ledger made handed s)
    (hs : Stepped s result s') (inside : Bool) :
    s'.events.filterMap Event.text? =
        Digit.rows ((made ++ [(⟨inside, s, result, s'⟩ : Made σ)]).map Made.released) ∧
      s'.digitsReleased =
        ((made ++ [(⟨inside, s, result, s'⟩ : Made σ)]).flatMap Made.released).length := by
  rw [hs.texts, hs.digitsReleased, h.texts, h.released, List.map_append, Digit.rows_append,
    List.flatMap_append, List.length_append]
  exact ⟨rfl, by simp [Made.released]⟩

theorem kept_ledger : Kept fun (made : List (Made σ)) handed s => Ledger made handed s where
  step {made handed s result s'} h hstep := by
    have hstepped := step_stepped hstep
    obtain ⟨htexts, hreleased⟩ := h.step hstepped false
    refine ⟨htexts, hreleased, ?_, hstepped.closed h.closed⟩
    rw [hstepped.pending, h.handed]
    simp
  drawn {made handed s result s'} h hpending hnone hstep := by
    have hstepped := step_stepped hstep
    obtain ⟨htexts, hreleased⟩ := h.step hstepped true
    -- nothing is pending, so what the step brings comes next after the digits handed out
    have hhanded : handed = (made.filter Made.inside).flatMap Made.released := by
      rw [← h.handed, hpending, List.append_nil]
    refine ⟨?_, ?_, ?_, (hstepped.closed h.closed).drawn result⟩
    · rw [events_drawn, htexts]
    · rw [digitsReleased_drawn, hreleased]
    · rw [pending_drawn result (hstepped.pending.trans hpending), hhanded]
      simp [Made.released]
  hand {made handed s digit pending} h hpending := by
    refine ⟨h.texts, h.released, ?_, h.closed.totals, h.closed.last⟩
    rw [← h.handed, hpending, List.append_assoc]
    rfl
  withPolicy h policy := ⟨h.texts, h.released, h.handed, h.closed.totals, h.closed.last⟩

theorem ledger_start {memory : σ} {digitCount : UInt64} (h : start m memory digitCount = .ok s) :
    Ledger [] [] s := by
  obtain ⟨memory', columns, rfl⟩ := start_eq_ok h
  refine ⟨rfl, rfl, rfl, rfl, ?_⟩
  intro hflushed
  cases hflushed

theorem releasable_start {memory : σ} {digitCount : UInt64}
    (h : start m memory digitCount = .ok s) : s.held.Releasable := by
  obtain ⟨memory', columns, rfl⟩ := start_eq_ok h
  exact Held.releasable_empty

theorem Visited.releasable {t : Spigot σ} (h : Visited s t) (hs : s.held.Releasable) :
    t.held.Releasable := by
  induction h with
  | start => exact hs
  | step _ hstep ih => exact (step_stepped hstep).releasable ih
  | advance _ hadvance ih =>
    cases advance_advanced hadvance with
    | handed hpending => exact ih
    | stopped hpending hfault => exact ih
    | drawn hpending hfault hstep => exact releasable_drawn ((step_stepped hstep).releasable ih)
  | withPolicy policy _ ih => exact ih

theorem length_released_inside_add (made : List (Made σ)) :
    ((made.filter Made.inside).flatMap Made.released).length +
        ((made.filter (!·.inside)).flatMap Made.released).length =
      (made.flatMap Made.released).length := by
  have hperm := (List.filter_append_perm Made.inside made).flatMap_right Made.released
  rw [← hperm.length_eq, List.flatMap_append, List.length_append]

structure Balanced (s : Spigot σ) (calls : List Call) (replies : List Reply) (s' : Spigot σ) :
    Prop where
  flush : ∀ t, Visited s t →
    (0 ≤ t.held.predigit ∧ t.held.predigit ≤ 9) ∧ ∃ digits, t.held.flush [] = .ok digits
  steps : ∀ made ∈ madeAll calls s, step made.before = .ok made.result made.after
  own : ((madeAll calls s).filter (!·.inside)).length = calls.count .step
  returned : ((madeAll calls s).filter (!·.inside)).flatMap Made.released =
    replies.flatMap Reply.returned
  handed : replies.flatMap Reply.handedOut ++ s'.pending =
    ((madeAll calls s).filter Made.inside).flatMap Made.released
  texts : s'.events.filterMap Event.text? = Digit.rows ((madeAll calls s).map Made.released)
  joined : String.join (s'.events.filterMap Event.text?) =
    Digit.row ((madeAll calls s).flatMap Made.released)
  length_texts : s'.digitsReleased = ((s'.events.filterMap Event.text?).map String.length).sum
  length_digits : s'.digitsReleased = (replies.flatMap Reply.handedOut).length +
    (replies.flatMap Reply.returned).length + s'.pending.length
  closed : s'.Closed

theorem performAll_balanced {memory : σ} {digitCount : UInt64}
    (hs : start m memory digitCount = .ok s) (h : performAll calls s = .ok replies s') :
    Balanced s calls replies s' := by
  have hledger : Ledger (madeAll calls s) (replies.flatMap Reply.handedOut) s' :=
    kept_ledger.run (ledger_start hs) h
  obtain ⟨hown, hreturned⟩ := own_steps h
  refine ⟨?_, fun _ => step_of_mem_madeAll, hown, hreturned, hledger.handed, hledger.texts, ?_, ?_,
    ?_, hledger.closed⟩
  · intro t ht
    have hr := ht.releasable (releasable_start hs)
    exact ⟨hr, hr.flush⟩
  · rw [hledger.texts, Digit.join_rows, List.flatMap_def]
  · rw [hledger.texts, Digit.sum_length_rows, hledger.released, List.flatMap_def]
  · have hsplit := length_released_inside_add (madeAll calls s)
    rw [← hledger.handed, hreturned, List.length_append] at hsplit
    rw [hledger.released]
    omega

/-- Carries of nine, of ten and out of range, given in the place of the true ones. -/
def misreading : List Script.Rule := [⟨.divide, none, some 10, .inTurn [4, 9, 10, 9, 11, 7]⟩]

def turns : List Call :=
  [.step, .next, .step, .withPolicy .keepPredigit, .next, .step, .next, .next, .step]

theorem performAll_balanced_misreading :
    ∃ s replies s', start (.scripted "Misreading" .native) ((), misreading) 5 = .ok s ∧
      performAll turns s = .ok replies s' ∧ s'.flushed = true ∧ s'.digitsReleased = 5 ∧
      Balanced s turns replies s' := by
  have hrun : (match start (.scripted "Misreading" .native) ((), misreading) 5 with
      | .ok s =>
        match performAll turns s with
        | .ok _ s' => decide (s'.flushed = true ∧ s'.digitsReleased = 5)
        | .error _ _ => false
      | .error _ => false) = true := by
    decide +kernel
  split at hrun
  · split at hrun
    · obtain ⟨hflushed, hreleased⟩ := of_decide_eq_true hrun
      exact ⟨_, _, _, ‹_›, ‹_›, hflushed, hreleased, performAll_balanced ‹_› ‹_›⟩
    · cases hrun
  · cases hrun

end Spigot

end PiDigits
