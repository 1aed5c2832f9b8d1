import Mathlib.Data.List.GetD
import PiDigits.Proofs.SpigotRun

namespace PiDigits

open Finset Series

namespace Radix

theorem value_eq_sum (position : ℕ) (entries : List ℕ) :
    value position entries =
      ∑ k ∈ range entries.length, (entries.getD k 0 : ℚ) * weight (position + k) := by
  induction entries generalizing position with
  | nil => rfl
  | cons entry rest ih =>
    rw [value, ih, List.length_cons, sum_range_succ', add_comm]
    congr 1
    apply sum_congr rfl
    intro k _
    rw [List.getD_cons_succ, Nat.add_right_comm, Nat.add_assoc]

theorem reduced_of_get {position : ℕ} {entries : List ℕ}
    (h : ∀ k (hk : k < entries.length), entries[k] < 2 * (position + k) - 1) :
    Reduced position entries := by
  induction entries generalizing position with
  | nil => trivial
  | cons entry rest ih =>
    refine ⟨h 0 (Nat.succ_pos _), ih fun k hk => ?_⟩
    have hnext := h (k + 1) (Nat.succ_lt_succ hk)
    rw [List.getElem_cons_succ] at hnext
    omega

end Radix

namespace Columns

variable {c : Columns} {entries : List ℕ}

def largest (index : ℕ) : ℤ := if index = 0 then 9 else 2 * index

def IsShaped (c : Columns) : Prop :=
  1 ≤ c.size ∧ ∀ k < c.size,
    0 ≤ (c.entries.getD k 0).toInt ∧ (c.entries.getD k 0).toInt ≤ largest k

instance (c : Columns) : Decidable c.IsShaped := inferInstanceAs (Decidable (_ ∧ _))

def worth (c : Columns) : ℚ :=
  ∑ k ∈ range c.size, ((c.entries.getD k 0).toInt : ℚ) * weight (k + 1)

theorem getD_ofNats (entries : List ℕ) (k : ℕ) :
    (ofNats entries).entries.getD k 0 = Int64.ofNat (entries.getD k 0) := by
  rw [ofNats, Array.getD_eq_getD_getElem?, List.getElem?_toArray, List.getElem?_map,
    List.getD_eq_getElem?_getD]
  cases entries[k]? <;> rfl

theorem toInt_getD_ofNats (h : ∀ entry ∈ entries, entry < 2 ^ 63) (k : ℕ) :
    ((ofNats entries).entries.getD k 0).toInt = (entries.getD k 0 : ℕ) := by
  rw [getD_ofNats]
  apply Int64.toInt_ofNat_of_lt
  by_cases hk : k < entries.length
  · rw [List.getD_eq_getElem _ _ hk]
    exact h _ (List.getElem_mem hk)
  · rw [List.getD_eq_default _ _ (by omega)]
    norm_num

theorem worth_ofNats (h : ∀ entry ∈ entries, entry < 2 ^ 63) :
    (ofNats entries).worth = Radix.value 1 entries := by
  rw [worth, Radix.value_eq_sum, size_ofNats]
  apply sum_congr rfl
  intro k _
  rw [toInt_getD_ofNats h, Nat.add_comm 1 k, Int.cast_natCast]

theorem isShaped_ofNats_iff (h : ∀ entry ∈ entries, entry < 2 ^ 63) :
    (ofNats entries).IsShaped ↔ Radix.Shaped entries := by
  simp only [IsShaped, size_ofNats, toInt_getD_ofNats h]
  cases entries with
  | nil => simp [Radix.Shaped]
  | cons first rest =>
    constructor
    · rintro ⟨-, hentries⟩
      refine ⟨?_, Radix.reduced_of_get fun k hk => ?_⟩
      · simpa [largest] using (hentries 0 (by simp)).2
      · have hentry := (hentries (k + 1) (by simpa using hk)).2
        rw [List.getD_cons_succ, List.getD_eq_getElem _ _ hk, largest, if_neg (by omega)] at hentry
        omega
    · rintro ⟨hfirst, hrest⟩
      refine ⟨by simp, fun k hk => ⟨by omega, ?_⟩⟩
      cases k with
      | zero => simpa [largest] using hfirst
      | succ k =>
        have hk' : k < rest.length := by simpa using hk
        have hentry := hrest.get hk'
        rw [List.getD_cons_succ, List.getD_eq_getElem _ _ hk', largest, if_neg (by omega)]
        omega

theorem exists_ofNats (h : ∀ k < c.size, 0 ≤ (c.entries.getD k 0).toInt) :
    ∃ entries, c = ofNats entries ∧ ∀ entry ∈ entries, entry < 2 ^ 63 := by
  have hnonneg : ∀ w ∈ c.entries.toList, 0 ≤ w := by
    intro w hw
    obtain ⟨k, hk, rfl⟩ := List.getElem_of_mem hw
    rw [Array.length_toList] at hk
    have hentry := h k hk
    rw [Array.getD_eq_getD_getElem?, Array.getElem?_eq_getElem hk] at hentry
    rwa [Int64.le_iff_toInt_le, Int64.toInt_zero, Array.getElem_toList]
  refine ⟨c.entries.toList.map Int64.toNatClampNeg, ?_, ?_⟩
  · have hmap : (c.entries.toList.map Int64.toNatClampNeg).map Int64.ofNat = c.entries.toList := by
      rw [List.map_map]
      refine (List.map_congr_left fun w hw => ?_).trans (List.map_id _)
      exact Int64.ofNat_toNatClampNeg w (hnonneg w hw)
    rw [ofNats, hmap]
  · intro entry hentry
    obtain ⟨w, -, rfl⟩ := List.mem_map.1 hentry
    exact Int64.toNatClampNeg_lt w

theorem entries_lt (hs : Radix.Shaped entries) (hl : 2 * entries.length < 2 ^ 63) :
    ∀ entry ∈ entries, entry < 2 ^ 63 := by
  cases entries with
  | nil => exact hs.elim
  | cons first rest =>
    rw [List.length_cons] at hl
    intro entry hentry
    rcases List.mem_cons.1 hentry with rfl | hentry
    · have hfirst := hs.1
      omega
    · obtain ⟨k, hk, rfl⟩ := List.getElem_of_mem hentry
      have hrest := hs.2.get hk
      omega

end Columns

namespace Spigot

variable {σ : Type} {s : Spigot σ}

def reducedCarries : ℕ → Action σ (List Word)
  | 0 => return []
  | count + 1 => do
    let carry ← reducedCarry
    return carry :: (← reducedCarries count)

structure Sweepable (a : Arithmetic) (s : Spigot σ) : Prop where
  machine : s.machine = a.machine
  shaped : s.columns.IsShaped
  fits : 39 * s.columns.size ≤ Int64.maxValue.toInt

structure Swept (s : Spigot σ) (carries : List Word) (s' : Spigot σ) : Prop where
  others : ∃ memory columns, s' = { s with memory, columns }
  shaped : s'.columns.IsShaped
  size : s'.columns.size = s.columns.size
  carry : ∀ carry ∈ carries, 0 ≤ carry.toInt ∧ carry.toInt ≤ 10
  worth : s.columns.worth =
    ∑ j ∈ range carries.length, ((carries.getD j 0).toInt : ℚ) / 10 ^ j +
      s'.columns.worth / 10 ^ carries.length

namespace Sweepable

variable {a : Arithmetic}

theorem exists_ofNats (h : s.Sweepable a) :
    ∃ entries, s.columns = .ofNats entries ∧ Radix.Shaped entries ∧ 39 * entries.length < 2 ^ 63 ∧
      s.columns.worth = Radix.value 1 entries := by
  obtain ⟨entries, hcolumns, hentries⟩ := Columns.exists_ofNats fun k hk => (h.shaped.2 k hk).1
  have hshaped := h.shaped
  have hfits := h.fits
  rw [hcolumns, Columns.isShaped_ofNats_iff hentries] at hshaped
  rw [hcolumns, Columns.size_ofNats, show Int64.maxValue.toInt = 2 ^ 63 - 1 from rfl] at hfits
  refine ⟨entries, hcolumns, hshaped, by omega, ?_⟩
  rw [hcolumns, Columns.worth_ofNats hentries]

theorem worth_bounds (h : s.Sweepable a) : 0 ≤ s.columns.worth ∧ s.columns.worth < 11 := by
  obtain ⟨entries, -, hshaped, -, hworth⟩ := h.exists_ofNats
  rw [hworth]
  exact ⟨Radix.value_nonneg le_rfl entries, Radix.value_shaped_lt hshaped⟩

theorem reducedCarry_ends (h : s.Sweepable a) :
    Ends reducedCarry s fun carry s' => Swept s [carry] s' := by
  obtain ⟨entries, hcolumns, hshaped, hfits, hworth⟩ := h.exists_ofNats
  obtain ⟨hshaped', hcarry, hlength⟩ := Radix.reduce_shaped hshaped
  have hentries' := Columns.entries_lt hshaped' (by omega)
  have hserves : s.machine.Serves (max 110 (39 * entries.length)) := by
    rw [h.machine]
    exact ⟨a.agreesBelow _, a.holds_eq, by omega, by omega⟩
  have htoInt : (Int64.ofNat (Radix.reduce entries).1).toInt = (Radix.reduce entries).1 :=
    Int64.toInt_ofNat_of_lt (by omega)
  refine reducedCarry_reduces hserves (le_max_left _ _) hcolumns hshaped (le_max_right _ _) ?_
  intro memory
  refine ⟨⟨memory, _, rfl⟩, (Columns.isShaped_ofNats_iff hentries').2 hshaped', ?_, ?_, ?_⟩
  · rw [hcolumns, Columns.size_ofNats, Columns.size_ofNats, hlength]
  · intro carry hmem
    rw [List.mem_singleton.1 hmem, htoInt]
    omega
  · have hvalue := Radix.value_reduce hshaped
    rw [hworth, Columns.worth_ofNats hentries', List.length_singleton, sum_range_one,
      List.getD_cons_zero, htoInt, Int.cast_natCast]
    linarith

theorem after {s' : Spigot σ} {carries : List Word} (h : s.Sweepable a) (hs : s.Swept carries s') :
    s'.Sweepable a := by
  refine ⟨?_, hs.shaped, hs.size ▸ h.fits⟩
  obtain ⟨memory, columns, rfl⟩ := hs.others
  exact h.machine

end Sweepable

theorem swept_nil (h : s.columns.IsShaped) : Swept s [] s :=
  ⟨⟨s.memory, s.columns, rfl⟩, h, rfl, by simp, by simp⟩

theorem Swept.cons {s' s'' : Spigot σ} {carry : Word} {carries : List Word}
    (h : s.Swept [carry] s') (h' : s'.Swept carries s'') : s.Swept (carry :: carries) s'' := by
  obtain ⟨memory, columns, rfl⟩ := h.others
  obtain ⟨memory', columns', rfl⟩ := h'.others
  refine ⟨⟨memory', columns', rfl⟩, h'.shaped, h'.size.trans h.size, ?_, ?_⟩
  · intro c hc
    rcases List.mem_cons.1 hc with rfl | hc
    · exact h.carry c (List.mem_singleton_self c)
    · exact h'.carry c hc
  · have hfirst := h.worth
    rw [List.length_singleton, sum_range_one, List.getD_cons_zero, h'.worth] at hfirst
    rw [hfirst, List.length_cons, sum_range_succ', List.getD_cons_zero, pow_succ, add_div,
      sum_div]
    simp only [List.getD_cons_succ, pow_succ, pow_zero, div_one, one_mul, div_div]
    ring

theorem Sweepable.reducedCarries_ends {a : Arithmetic} (h : s.Sweepable a) (count : ℕ) :
    Ends (reducedCarries count) s fun carries s' => carries.length = count ∧ s.Swept carries s' := by
  induction count generalizing s with
  | zero => exact .pure ⟨rfl, swept_nil h.shaped⟩
  | succ count ih =>
    refine .bind (h.reducedCarry_ends.mono fun carry s' hs => .bind ?_)
    refine (ih (h.after hs)).mono fun carries s'' hs' => .pure ⟨?_, hs.cons hs'.2⟩
    rw [List.length_cons, hs'.1]

theorem Swept.worth_eq {s' : Spigot σ} {carry : Word} (h : s.Swept [carry] s') :
    s.columns.worth = carry.toInt + s'.columns.worth / 10 := by
  have hworth := h.worth
  rwa [List.length_singleton, sum_range_one, List.getD_cons_zero, pow_zero, pow_one, div_one]
    at hworth

theorem sweepable_replicate {a : Arithmetic} {size : ℕ} (hpos : 1 ≤ size)
    (hfits : (39 * size : ℕ) ≤ Int64.maxValue.toInt) (hm : s.machine = a.machine)
    (hc : s.columns = .ofNats (List.replicate size 2)) : s.Sweepable a := by
  have hentries : ∀ entry ∈ List.replicate size 2, entry < 2 ^ 63 := by
    intro entry hentry
    rw [List.eq_of_mem_replicate hentry]
    norm_num
  refine ⟨hm, ?_, ?_⟩
  · rw [hc, Columns.isShaped_ofNats_iff hentries]
    exact Radix.shaped_replicate hpos
  · rw [hc, Columns.size_ofNats, List.length_replicate]
    exact_mod_cast hfits

theorem make_replicate {size : UInt64} (h : (39 * size.toNat : ℕ) ≤ Int64.maxValue.toInt) :
    Columns.make size = .ok (.ofNats (List.replicate size.toNat 2)) := by
  rw [show Int64.maxValue.toInt = 2 ^ 63 - 1 from rfl] at h
  rw [← make_eq (by omega), UInt64.ofNat_toNat]

theorem reducedCarries_worth (a : Arithmetic) :
    (∀ s : Spigot σ, s.Sweepable a →
      (0 ≤ s.columns.worth ∧ s.columns.worth < 11) ∧
      (∃ carry s', reducedCarry s = .ok carry s' ∧ s.Swept [carry] s' ∧
        s.columns.worth = carry.toInt + s'.columns.worth / 10) ∧
      ∀ count, ∃ carries s', reducedCarries count s = .ok carries s' ∧ carries.length = count ∧
        s.Swept carries s') ∧
    ∀ size : UInt64, 1 ≤ size.toNat → (39 * size.toNat : ℕ) ≤ Int64.maxValue.toInt →
      Columns.make size = .ok ⟨.replicate size.toNat 2⟩ ∧
      ∀ s : Spigot σ, s.machine = a.machine → s.columns = ⟨.replicate size.toNat 2⟩ →
        s.Sweepable a := by
  constructor
  · intro s hs
    obtain ⟨carry, s', hcarry, hswept⟩ := hs.reducedCarry_ends
    refine ⟨hs.worth_bounds, ⟨carry, s', hcarry, hswept, hswept.worth_eq⟩, fun count => ?_⟩
    obtain ⟨carries, s'', hcarries, hlength, hswept⟩ := hs.reducedCarries_ends count
    exact ⟨carries, s'', hcarries, hlength, hswept⟩
  · intro size hpos hfits
    have hreplicate : Columns.ofNats (List.replicate size.toNat 2) =
        ⟨.replicate size.toNat 2⟩ := by
      rw [Columns.ofNats, List.map_replicate, List.toArray_replicate]
      rfl
    rw [← hreplicate]
    exact ⟨make_replicate hfits, fun s hm hc => sweepable_replicate hpos hfits hm hc⟩

/-- Every column holds as much as it may between two sweeps. -/
def brimming : Spigot Unit where
  machine := .native
  memory := ()
  digitCount := 1
  policy := default
  columns := ⟨#[9, 2, 4, 6]⟩
  held := .empty
  nextSweep := 1
  flushed := false
  pending := []
  digitsReleased := 0
  fault? := none
  journal := #[]

theorem reducedCarries_worth_brimming :
    brimming.Sweepable .native ∧ ∃ s', reducedCarry brimming = .ok 10 s' ∧
      brimming.columns.worth = 10 + s'.columns.worth / 10 := by
  have hs : brimming.Sweepable .native := ⟨rfl, by decide +kernel, by decide⟩
  have hrun : (match reducedCarry brimming with
      | .ok carry _ => decide (carry = 10)
      | .error _ _ => false) = true := by
    decide +kernel
  obtain ⟨carry, s', hcarry, -, hworth⟩ := ((reducedCarries_worth .native).1 brimming hs).2.1
  rw [hcarry] at hrun
  obtain rfl : carry = 10 := of_decide_eq_true hrun
  refine ⟨hs, s', hcarry, ?_⟩
  rw [hworth, show Int64.toInt 10 = 10 from rfl, Int.cast_ofNat]

end Spigot

end PiDigits
