import PiDigits.Proofs.SpigotRun

/-!
Bounds on all numbers that occur in a sweep, wherever in a run the sweep stands: the carries from
one column to the next are at most 19, so nothing runs over and every column comes out reduced.
-/

namespace PiDigits

open Work Radix

variable {σ : Type}

namespace Columns

inductive Reached (m : Machine σ) (memory₀ : σ) (c₀ : Columns) :
    σ → (i carry : Word) → Columns → Prop
  | start : Reached m memory₀ c₀ memory₀ (Word.ofCount c₀.size.toUInt64) 0 c₀
  | round {memory memory₁ memory₂ : σ} {i carry : Word} {c : Columns}
      {next : Word × Word × Columns} :
    Reached m memory₀ c₀ memory i carry c → m.isPositive i memory = .ok (true, memory₁) →
      Columns.round m i carry c memory₁ = .ok (next, memory₂) →
      Reached m memory₀ c₀ memory₂ next.1 next.2.1 next.2.2

variable {m : Machine σ} {limit : ℕ} {memory₀ memory memory' : σ} {i carry carry' : Word}
  {c₀ c c' : Columns}

theorem Reached.sweepFrom {rounds : ℕ} (h : Reached m memory₀ c₀ memory i carry c)
    (hs : sweepFrom m rounds i carry c memory = .ok ((carry', c'), memory')) :
    ∃ i' memory₁, Reached m memory₀ c₀ memory₁ i' carry' c' ∧
      m.isPositive i' memory₁ = .ok (false, memory') := by
  induction rounds generalizing memory i carry c with
  | zero =>
    rw [Columns.sweepFrom] at hs
    obtain ⟨positive, memory₁, hpositive, hs⟩ := of_bind_eq_ok hs
    cases positive with
    | true => cases hs
    | false =>
      cases hs
      exact ⟨i, memory, h, hpositive⟩
  | succ rounds ih =>
    rw [sweepFrom_succ] at hs
    obtain ⟨positive, memory₁, hpositive, hs⟩ := of_bind_eq_ok hs
    cases positive with
    | true =>
      obtain ⟨next, memory₂, hround, hs⟩ := of_bind_eq_ok hs
      exact ih (h.round hpositive hround) hs
    | false =>
      cases hs
      exact ⟨i, memory, h, hpositive⟩

/-- The columns before position `i` are as they were, and the carry and the others are as after a
pass over the columns from position `i + 1` on. -/
def Passed (entries : List ℕ) (i carry : Word) (c : Columns) : Prop :=
  ∃ front back, entries = front ++ back ∧ i = .ofNat front.length ∧
    carry = .ofNat (pass (front.length + 1) back).1 ∧
    c = .ofNats (front ++ (pass (front.length + 1) back).2)

theorem Reached.passed {entries : List ℕ} (hm : m.Serves limit) (hfirst : 110 ≤ limit)
    (hs : Shaped entries) (hl : 39 * entries.length ≤ limit)
    (h : Reached m memory₀ (.ofNats entries) memory i carry c) : Passed entries i carry c := by
  induction h with
  | start =>
    refine ⟨entries, [], (List.append_nil _).symm, ?_, rfl, ?_⟩
    · rw [size_ofNats]
      rfl
    · rw [Radix.pass, List.append_nil]
  | round _ hpositive hround ih =>
    obtain ⟨front, back, rfl, rfl, rfl, rfl⟩ := ih
    have hlength : front.length < limit := by
      rw [List.length_append] at hl
      omega
    have hpos := (hm.isPositive hlength).eq_of_ok hpositive
    cases front using List.reverseRecOn with
    | nil => simp at hpos
    | append_singleton front entry =>
      simp only [List.append_assoc, List.singleton_append, List.length_append, List.length_cons,
        List.length_nil, Nat.zero_add] at hs hl hround ⊢
      have hx := hs.intake_lt (by omega) hfirst
      have hturn := Turn.ofNats_exactly hm entry (pass (front.length + 1 + 1) back).1
        (pass (front.length + 1 + 1) back).2 (by omega) hx
      obtain rfl := hturn.round_gives.eq_of_ok hround
      refine ⟨front, entry :: back, rfl, rfl, ?_, ?_⟩
      · rw [pass_cons]
        rfl
      · rw [pass_cons]
        rfl

structure SafeAt (m : Machine σ) (i carry : Word) (c : Columns) : Prop where
  carry_nonneg : 0 ≤ carry.toInt
  carry_le : carry.toInt ≤ 19
  turn : ∃ (turn : Turn) (c' : Columns), turn.Exactly m i carry c c' ∧ 0 ≤ turn.x.toInt ∧
    (2 ≤ i.toInt → turn.x.toInt ≤ 39 * i.toInt - 20) ∧ (i.toInt = 1 → turn.x.toInt ≤ 109)

theorem Passed.safeAt {entries : List ℕ} (hm : m.Serves limit) (hfirst : 110 ≤ limit)
    (hs : Shaped entries) (hl : 39 * entries.length ≤ limit) (h : Passed entries i carry c)
    (hi : 0 < i.toInt) : SafeAt m i carry c := by
  have hsmall := hm.small
  obtain ⟨front, back, rfl, rfl, rfl, rfl⟩ := h
  cases front using List.reverseRecOn with
  | nil => exact (lt_irrefl _ hi).elim
  | append_singleton front entry =>
    have hcarry := hs.carry_le (by simp)
    simp only [List.append_assoc, List.singleton_append, List.length_append, List.length_cons,
      List.length_nil, Nat.zero_add] at hs hl hcarry ⊢
    have hx := hs.intake_lt (by omega) hfirst
    have hturn := Turn.ofNats_exactly hm entry (pass (front.length + 1 + 1) back).1
      (pass (front.length + 1 + 1) back).2 (by omega) hx
    have hxInt : (Turn.ofNats front.length entry (pass (front.length + 1 + 1) back).1).x.toInt =
        intake (front.length + 1) entry back := Int64.toInt_ofNat_of_lt (hx.trans_le hsmall)
    have hiInt : (Int64.ofNat (front.length + 1)).toInt = (front.length + 1 : ℕ) :=
      Int64.toInt_ofNat_of_lt (by omega)
    obtain ⟨hzero, hpos⟩ := hs.intake_le
    refine ⟨?_, ?_, _, _, hturn, ?_, ?_, ?_⟩
    · rw [Int64.toInt_ofNat_of_lt (by omega)]
      omega
    · rw [Int64.toInt_ofNat_of_lt (by omega)]
      omega
    · rw [hxInt]
      omega
    · rw [hxInt, hiInt]
      omega
    · rw [hxInt, hiInt]
      omega

structure SweptTo (m : Machine σ) (c₀ c c' : Columns) (carry reduced : Word) : Prop where
  sweep : Gives (c₀.sweep m) (carry, c)
  reached : ∀ memory₀, ∃ memory, Reached m memory₀ c₀ memory 0 carry c
  size : c.size = c₀.size
  entries : ∀ (k : ℕ) (entry : Word), c.entries[k]? = some entry →
    0 ≤ entry.toInt ∧ entry.toInt < 2 * (k + 1 : ℕ) - 1
  firstUnreduced? : c.firstUnreduced? = none
  extract : Gives (c.extract m carry) (reduced, c')
  size_extract : c'.size = c₀.size
  first : ∃ first : Word, c'.entries[0]? = some first ∧ 0 ≤ first.toInt ∧ first.toInt ≤ 9
  others : ∀ k, 1 ≤ k → c'.entries[k]? = c.entries[k]?

structure SweepSafe (m : Machine σ) (c₀ : Columns) : Prop where
  turns : ∀ memory₀ memory i carry c, Reached m memory₀ c₀ memory i carry c → 0 < i.toInt →
    SafeAt m i carry c
  swept : ∃ c c' carry reduced, SweptTo m c₀ c c' carry reduced

theorem entries_ofNats {entries : List ℕ} (h : Reduced 1 entries)
    (hl : 2 * (1 + entries.length) ≤ 2 ^ 63) {k : ℕ} {entry : Word}
    (he : (ofNats entries).entries[k]? = some entry) :
    0 ≤ entry.toInt ∧ entry.toInt < 2 * (k + 1 : ℕ) - 1 := by
  simp only [ofNats, List.getElem?_toArray, List.getElem?_map, Option.map_eq_some_iff] at he
  obtain ⟨a, ha, rfl⟩ := he
  obtain ⟨hk, rfl⟩ := List.getElem?_eq_some_iff.1 ha
  have hlt := h.get hk
  rw [Int64.toInt_ofNat_of_lt (by omega)]
  omega

theorem sweptTo_ofNats (hm : m.Serves limit) (hfirst : 110 ≤ limit) {first : ℕ} {rest : List ℕ}
    (hs : Shaped (first :: rest)) (hl : 39 * (first :: rest).length ≤ limit) :
    SweptTo m (.ofNats (first :: rest)) (.ofNats (0 :: (pass 2 rest).2))
      (.ofNats (intake 1 first rest % 10 :: (pass 2 rest).2)) (.ofNat (intake 1 first rest))
      (.ofNat (intake 1 first rest / 10)) := by
  have hsmall := hm.small
  have hreduced := pass_reduced (le_refl 1) (first :: rest)
  have hsweep := sweep_gives hm hfirst hs hl
  have hextract := extract_gives hm ((intake_first_le hs).trans_lt hfirst) 0 (pass 2 rest).2
  have hunreduced := firstUnreduced?_ofNats hreduced (by simp at hl ⊢; omega)
  rw [pass_first] at hsweep hunreduced hreduced
  exact {
    sweep := hsweep
    reached := by
      intro memory₀
      obtain ⟨memory, hmemory⟩ := hsweep memory₀
      obtain ⟨i, memory₁, hreached, hpositive⟩ := Reached.start.sweepFrom hmemory
      obtain ⟨front, back, happend, rfl, -, -⟩ := hreached.passed hm hfirst hs hl
      have hlength : front.length < limit := by
        rw [happend, List.length_append] at hl
        omega
      have hpos := (hm.isPositive hlength).eq_of_ok hpositive
      have hzero : front.length = 0 := by simpa using hpos
      rw [hzero] at hreached
      exact ⟨memory₁, hreached⟩
    size := by simp
    entries := by
      intro k entry hentry
      exact entries_ofNats hreduced (by simp at hl ⊢; omega) hentry
    firstUnreduced? := hunreduced
    extract := hextract
    size_extract := by simp
    first := by
      refine ⟨.ofNat (intake 1 first rest % 10), by simp [ofNats], ?_⟩
      rw [Int64.toInt_ofNat_of_lt (by omega)]
      omega
    others := by
      intro k hk
      obtain ⟨k, rfl⟩ := Nat.exists_eq_add_of_le' hk
      simp [ofNats] }

theorem sweepSafe_ofNats (hm : m.Serves limit) (hfirst : 110 ≤ limit) {entries : List ℕ}
    (hs : Shaped entries) (hl : 39 * entries.length ≤ limit) : SweepSafe m (.ofNats entries) where
  turns memory₀ memory i carry c h hi := (h.passed hm hfirst hs hl).safeAt hm hfirst hs hl hi
  swept := by
    cases entries with
    | nil => exact hs.elim
    | cons first rest => exact ⟨_, _, _, _, sweptTo_ofNats hm hfirst hs hl⟩

end Columns

/-- No call meets a violation, with whatever changes of policy in between. Wherever a computation
comes, inside a call of `next` too, there are as many columns as at the start, and the sweep that
comes next is safe. -/
theorem Spigot.performAll_sweepSafe (a : Arithmetic) (digitCount : UInt64)
    (h : Admissible digitCount) :
    ∃ s : Spigot Unit, start a.machine () digitCount = .ok s ∧
      (∀ calls, ∃ replies s', performAll calls s = .ok replies s' ∧ Visited s s') ∧
      ∀ s', Visited s s' → s'.machine = a.machine ∧
        s'.columns.size = columnCount digitCount.toNat ∧ s'.columns.SweepSafe s'.machine ∧
        ∃ digits s'', step s' = .ok digits s'' := by
  obtain ⟨s, hs, hfollows⟩ := start_follows () digitCount (h.serves_machine a)
  have hsound := Exact.sound_start digitCount.toNat
  refine ⟨s, hs, ?_, ?_⟩
  · intro calls
    obtain ⟨replies, s', hs', -⟩ := performAll_ends hfollows hsound calls
    exact ⟨replies, s', hs', Visited.start.performAll hs'⟩
  · intro s' hvisited
    obtain ⟨t, hsound', hfollows'⟩ := hvisited.follows hfollows hsound
    obtain ⟨digits, s'', hs'', -⟩ := step_ends hfollows' hsound'
    have hlength := hsound'.length
    refine ⟨hfollows'.machine, ?_, ?_, digits, s'', hs''⟩
    · rw [hfollows'.columns, Columns.size_ofNats, hlength]
    · have hsmall := hfollows.serves.small
      have hm : (a.machine : Machine Unit).Serves
          (max 110 (39 * columnCount digitCount.toNat)) :=
        ⟨a.agreesBelow _, a.holds_eq, by omega, by omega⟩
      rw [hfollows'.machine, hfollows'.columns]
      apply Columns.sweepSafe_ofNats hm (le_max_left _ _) hsound'.shaped
      rw [hlength]
      exact le_max_right _ _

theorem Spigot.performAll_sweepSafe_counting_five :
    Admissible 5 ∧
      ∃ s : Spigot Unit, start Arithmetic.counting.machine () 5 = .ok s ∧
        ∃ replies s', performAll [.step, .withPolicy .keepPredigit, .next] s = .ok replies s' ∧
          s'.columns.size = 17 ∧ s'.columns.SweepSafe s'.machine := by
  obtain ⟨s, hs, hcalls, hsafe⟩ := performAll_sweepSafe .counting 5 (by decide)
  obtain ⟨replies, s', hs', hvisited⟩ := hcalls [.step, .withPolicy .keepPredigit, .next]
  obtain ⟨-, hsize, hsweep, -⟩ := hsafe s' hvisited
  exact ⟨by decide, s, hs, replies, s', hs', hsize, hsweep⟩

end PiDigits
