import Mathlib.Data.List.Infix
import Mathlib.Order.Bounds.Basic
import PiDigits.Expansion

namespace PiDigits.Expansion

theorem le_sharedLength_iff {k : ℕ} (ds es : List Digit) :
    k ≤ sharedLength ds es ↔ k ≤ min ds.length es.length ∧ ds.take k = es.take k := by
  induction ds generalizing es k with
  | nil => simp +contextual [sharedLength]
  | cons d ds ih =>
    cases es with
    | nil => simp +contextual [sharedLength]
    | cons e es =>
      cases k with
      | zero => simp
      | succ k =>
        by_cases h : d = e
        · simp [sharedLength, h, ih]
        · simp [sharedLength, h]

variable {a b c : Expansion} {k : ℕ}

theorem le_commonPrefixLength_iff :
    k ≤ a.commonPrefixLength b ↔
      k ≤ min a.length b.length ∧ a.digits.take k = b.digits.take k :=
  le_sharedLength_iff a.digits b.digits

theorem commonPrefixLength_comm (a b : Expansion) :
    a.commonPrefixLength b = b.commonPrefixLength a := by
  apply eq_of_forall_le_iff
  intro k
  rw [le_commonPrefixLength_iff, le_commonPrefixLength_iff, min_comm, eq_comm]

theorem min_commonPrefixLength_le (a b c : Expansion) :
    min (a.commonPrefixLength b) (b.commonPrefixLength c) ≤ a.commonPrefixLength c := by
  obtain ⟨hab, hshared⟩ := le_commonPrefixLength_iff.mp (min_le_left (a.commonPrefixLength b)
    (b.commonPrefixLength c))
  obtain ⟨hbc, hshared'⟩ := le_commonPrefixLength_iff.mp (min_le_right (a.commonPrefixLength b)
    (b.commonPrefixLength c))
  rw [le_commonPrefixLength_iff]
  exact ⟨le_min (hab.trans (min_le_left _ _)) (hbc.trans (min_le_right _ _)),
    hshared.trans hshared'⟩

theorem startsWithin_iff : a.startsWithin b = true ↔ a.digits <+: b.digits := by
  have hle : a.commonPrefixLength b ≤ a.length :=
    (le_commonPrefixLength_iff.mp le_rfl).1.trans (min_le_left _ _)
  have hlength : a.commonPrefixLength b = a.length ↔
      a.length ≤ b.length ∧ a.digits = b.digits.take a.length := by
    rw [← hle.ge_iff_eq, le_commonPrefixLength_iff, Nat.le_min, length, List.take_length]
    simp
  rw [startsWithin, Bool.and_eq_true, decide_eq_true_iff, decide_eq_true_iff, hlength,
    List.prefix_iff_eq_take]
  constructor
  · rintro ⟨-, -, htake⟩
    exact htake
  · intro htake
    have hshort : a.length ≤ b.length := (List.prefix_iff_eq_take.mpr htake).length_le
    exact ⟨hshort, hshort, htake⟩

theorem startsWithin_iff_length_le (h : c.startsWithin a = true) :
    c.startsWithin b = true ↔ c.length ≤ a.commonPrefixLength b := by
  rw [startsWithin_iff] at h ⊢
  have hlength : c.length ≤ a.length := h.length_le
  have htake := List.prefix_iff_eq_take.mp h
  rw [le_commonPrefixLength_iff, Nat.le_min, List.prefix_iff_eq_take, length, ← htake]
  constructor
  · intro htake'
    exact ⟨⟨hlength, (List.prefix_iff_eq_take.mpr htake').length_le⟩, htake'⟩
  · rintro ⟨-, htake'⟩
    exact htake'

/-- The common prefix is the longest one. Its length is symmetric and, of the three lengths among
three expansions, the least occurs twice; to begin another expansion is a partial order. -/
theorem commonPrefixLength_tree (a b c : Expansion) :
    IsGreatest {k | k ≤ min a.length b.length ∧ a.digits.take k = b.digits.take k}
      (a.commonPrefixLength b) ∧
    a.commonPrefixLength b = b.commonPrefixLength a ∧
    min (a.commonPrefixLength b) (b.commonPrefixLength c) ≤ a.commonPrefixLength c ∧
    (a.startsWithin b = true ↔ ∃ more, b.digits = a.digits ++ more) ∧
    a.startsWithin a = true ∧
    (a.startsWithin b = true → b.startsWithin c = true → a.startsWithin c = true) ∧
    (a.startsWithin b = true → b.startsWithin a = true → a = b) ∧
    (c.startsWithin a = true →
      (c.startsWithin b = true ↔ c.length ≤ a.commonPrefixLength b)) := by
  refine ⟨?greatest, commonPrefixLength_comm a b, min_commonPrefixLength_le a b c, ?more, ?refl,
    ?trans, ?antisymm, startsWithin_iff_length_le⟩
  case greatest =>
    refine ⟨le_commonPrefixLength_iff.mp le_rfl, ?_⟩
    intro k hk
    exact le_commonPrefixLength_iff.mpr hk
  case more =>
    rw [startsWithin_iff]
    constructor
    · rintro ⟨more, hmore⟩
      exact ⟨more, hmore.symm⟩
    · rintro ⟨more, hmore⟩
      exact ⟨more, hmore.symm⟩
  case refl => exact startsWithin_iff.mpr List.prefix_rfl
  case trans =>
    simp only [startsWithin_iff]
    exact List.IsPrefix.trans
  case antisymm =>
    simp only [startsWithin_iff]
    intro hab hba
    exact congrArg Expansion.mk (hab.eq_of_length_le hba.length_le)

theorem commonPrefixLength_tree_nested :
    (ofText "3141").startsWithin (ofText "314159") = true ∧
    (ofText "314159").startsWithin (ofText "31415926") = true ∧
    (ofText "3141").startsWithin (ofText "31415926") = true ∧
    (ofText "3142").commonPrefixLength (ofText "314159") = 3 ∧
    (ofText "314").startsWithin (ofText "314159") = true := by
  have hshort : (ofText "3141").startsWithin (ofText "314159") = true := by decide +kernel
  have hlong : (ofText "314159").startsWithin (ofText "31415926") = true := by decide +kernel
  obtain ⟨-, -, -, -, -, htrans, -⟩ :=
    commonPrefixLength_tree (ofText "3141") (ofText "314159") (ofText "31415926")
  obtain ⟨-, -, -, -, -, -, -, hcommon⟩ :=
    commonPrefixLength_tree (ofText "3142") (ofText "314159") (ofText "314")
  have hlength : (ofText "3142").commonPrefixLength (ofText "314159") = 3 := by decide +kernel
  refine ⟨hshort, hlong, htrans hshort hlong, hlength, (hcommon (by decide +kernel)).mpr ?_⟩
  rw [hlength]
  decide +kernel

end PiDigits.Expansion
