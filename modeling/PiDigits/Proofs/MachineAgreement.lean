import PiDigits.Proofs.CountedQuotients

/-!
Machines that are right about small numbers. A machine may answer anything, and change its memory
in any way, as long as its answers to questions about words from zero up to a limit are the plain
ones.
-/

namespace PiDigits

variable {σ τ : Type} {α β : Type}

namespace Work

def Gives (w : Work σ α) (a : α) : Prop := ∀ memory, ∃ memory', w memory = .ok (a, memory')

def Agree (w : Work σ α) (v : Work τ α) : Prop := ∃ a, Gives w a ∧ Gives v a

theorem Gives.pure (a : α) : Gives (Pure.pure a : Work σ α) a := fun memory => ⟨memory, rfl⟩

theorem Gives.bind {w : Work σ α} {f : α → Work σ β} {a : α} {b : β} (hw : Gives w a)
    (hf : Gives (f a) b) : Gives (w >>= f) b := by
  intro memory
  obtain ⟨memory₁, h₁⟩ := hw memory
  obtain ⟨memory₂, h₂⟩ := hf memory₁
  refine ⟨memory₂, ?_⟩
  simp only [Bind.bind, StateT.bind, h₁, Except.bind]
  exact h₂

theorem Gives.lift {x : Except Violation α} {a : α} (h : x = .ok a) :
    Gives (liftM x : Work σ α) a := by
  subst h
  exact fun memory => ⟨memory, rfl⟩

theorem Gives.eq_of_ok {w : Work σ α} {a b : α} {memory memory' : σ} (h : Gives w a)
    (hb : w memory = .ok (b, memory')) : b = a := by
  obtain ⟨memory₁, h₁⟩ := h memory
  rw [h₁] at hb
  cases hb
  rfl

theorem Gives.unique [Inhabited σ] {w : Work σ α} {a b : α} (ha : Gives w a) (hb : Gives w b) :
    a = b := by
  obtain ⟨_, h₁⟩ := ha default
  exact hb.eq_of_ok h₁

theorem Agree.gives [Inhabited τ] {w : Work σ α} {v : Work τ α} {a : α} (h : Agree w v)
    (hv : Gives v a) : Gives w a := by
  obtain ⟨b, hw, hb⟩ := h
  rwa [hv.unique hb]

theorem of_bind_eq_ok {w : Work σ α} {f : α → Work σ β} {b : β} {memory memory' : σ}
    (h : (w >>= f) memory = .ok (b, memory')) :
    ∃ a memory₁, w memory = .ok (a, memory₁) ∧ f a memory₁ = .ok (b, memory') := by
  simp only [Bind.bind, StateT.bind, Except.bind] at h
  split at h
  · cases h
  · exact ⟨_, _, ‹_›, h⟩

end Work

open Work

namespace Machine

def InRange (limit : Nat) (x : Word) : Prop := 0 ≤ x.toInt ∧ x.toInt < limit

instance (limit : Nat) (x : Word) : Decidable (InRange limit x) :=
  inferInstanceAs (Decidable (_ ∧ _))

/-- The machine answers as plain words do when its operands are in range, and a divisor is not
zero. -/
structure AgreesBelow (m : Machine σ) (limit : Nat) : Prop where
  isPositive {x} : InRange limit x → Agree (m.isPositive x) (native.isPositive x : Work Unit _)
  increment {x} : InRange limit x → Agree (m.increment x) (native.increment x : Work Unit _)
  decrement {x} : InRange limit x → Agree (m.decrement x) (native.decrement x : Work Unit _)
  add {x y} : InRange limit x → InRange limit y → Agree (m.add x y) (native.add x y : Work Unit _)
  multiply {x y} : InRange limit x → InRange limit y →
    Agree (m.multiply x y) (native.multiply x y : Work Unit _)
  divide {x y} : InRange limit x → InRange limit y → y ≠ 0 →
    Agree (m.divide x y) (native.divide x y : Work Unit _)
  modulus {x y} : InRange limit x → InRange limit y → y ≠ 0 →
    Agree (m.modulus x y) (native.modulus x y : Work Unit _)
  equals {x y} : InRange limit x → InRange limit y →
    Agree (m.equals x y) (native.equals x y : Work Unit _)
  greaterThan {x y} : InRange limit x → InRange limit y →
    Agree (m.greaterThan x y) (native.greaterThan x y : Work Unit _)
  lessThan {x y} : InRange limit x → InRange limit y →
    Agree (m.lessThan x y) (native.lessThan x y : Work Unit _)

theorem agree_pure (a : α) : Agree (pure a : Work σ α) (pure a : Work τ α) :=
  ⟨a, .pure a, .pure a⟩

theorem agreesBelow_native (limit : Nat) : (native : Machine σ).AgreesBelow limit where
  isPositive _ := agree_pure _
  increment _ := agree_pure _
  decrement _ := agree_pure _
  add _ _ := agree_pure _
  multiply _ _ := agree_pure _
  divide _ _ hy := by
    simp only [native, if_neg hy]
    exact agree_pure _
  modulus _ _ hy := by
    simp only [native, if_neg hy]
    exact agree_pure _
  equals _ _ := agree_pure _
  greaterThan _ _ := agree_pure _
  lessThan _ _ := agree_pure _

theorem InRange.nonneg {limit : Nat} {x : Word} (h : InRange limit x) : 0 ≤ x :=
  Word.nonneg_iff.2 h.1

theorem InRange.ne_minValue {limit : Nat} {x : Word} (h : InRange limit x) :
    x ≠ Int64.minValue :=
  Word.ne_minValue h.nonneg

theorem InRange.comparisons {limit : Nat} {x y : Word} (hx : InRange limit x)
    (hy : InRange limit y) :
    Counting.equals x y = Word.ofBool (decide (x = y)) ∧
      Counting.greaterThan x y = Word.ofBool (decide (y < x)) ∧
      Counting.lessThan x y = Word.ofBool (decide (x < y)) := by
  have := Word.nonneg_iff.1 hx.nonneg
  have := Word.nonneg_iff.1 hy.nonneg
  have := x.toInt_lt
  have := y.toInt_lt
  exact Counting.comparisons_eq_native hy.ne_minValue (by omega)

theorem agreesBelow_counting (limit : Nat) : (counting : Machine σ).AgreesBelow limit where
  isPositive _ := agree_pure _
  increment _ := agree_pure _
  decrement _ := agree_pure _
  add _ hy := by
    simp only [counting, Counting.add_eq_add hy.ne_minValue]
    exact agree_pure _
  multiply hx hy := by
    simp only [counting, Counting.multiply_eq_mul hx.ne_minValue hy.ne_minValue]
    exact agree_pure _
  divide hx hy hne := by
    simp only [counting, native, if_neg hne,
      Counting.divide_eq_div hx.ne_minValue hne hy.ne_minValue]
    exact ⟨_, .lift rfl, .pure _⟩
  modulus hx hy hne := by
    simp only [counting, native, if_neg hne,
      Counting.modulus_eq_mod hx.ne_minValue hne hy.ne_minValue]
    exact ⟨_, .lift rfl, .pure _⟩
  equals hx hy := by
    simp only [counting, (hx.comparisons hy).1]
    exact agree_pure _
  greaterThan hx hy := by
    simp only [counting, (hx.comparisons hy).2.1]
    exact agree_pure _
  lessThan hx hy := by
    simp only [counting, (hx.comparisons hy).2.2]
    exact agree_pure _

structure Serves (m : Machine σ) (limit : Nat) : Prop where
  agrees : m.AgreesBelow limit
  holds_eq : m.holds = m.isPositive
  large : 39 ≤ limit
  small : limit ≤ 2 ^ 63

namespace Serves

variable {m : Machine σ} {limit : Nat} (h : m.Serves limit) {a b : Nat}

include h

theorem inRange (ha : a < limit) : InRange limit (Int64.ofNat a) := by
  have := h.small
  rw [InRange, Int64.toInt_ofNat_of_lt (by omega)]
  omega

theorem ne_zero (hb : b < limit) (hb' : 0 < b) : Int64.ofNat b ≠ 0 := by
  have := h.small
  rw [show (0 : Word) = Int64.ofNat 0 from rfl, Ne, Word.ofNat_inj (by omega) (by omega)]
  omega

theorem isPositive (ha : a < limit) : Gives (m.isPositive (Int64.ofNat a)) (decide (0 < a)) := by
  have := h.small
  have hp : 0 < Int64.ofNat a ↔ 0 < a := Int64.ofNat_lt_iff_lt (a := 0) (by omega) (by omega)
  have hm := (h.agrees.isPositive (h.inRange ha)).gives (.pure _)
  simpa only [hp] using hm

theorem increment (ha : a < limit) :
    Gives (m.increment (Int64.ofNat a)) (Int64.ofNat (a + 1)) := by
  have hm := (h.agrees.increment (h.inRange ha)).gives (.pure _)
  rwa [Int64.ofNat_add]

theorem decrement (ha : a + 1 < limit) :
    Gives (m.decrement (Int64.ofNat (a + 1))) (Int64.ofNat a) := by
  have hm := (h.agrees.decrement (h.inRange ha)).gives (.pure _)
  rwa [show Int64.ofNat a = Int64.ofNat (a + 1) - 1 by rw [Int64.ofNat_add]; grind]

theorem add (ha : a < limit) (hb : b < limit) :
    Gives (m.add (Int64.ofNat a) (Int64.ofNat b)) (Int64.ofNat (a + b)) := by
  have hm := (h.agrees.add (h.inRange ha) (h.inRange hb)).gives (.pure _)
  rwa [Int64.ofNat_add]

theorem multiply (ha : a < limit) (hb : b < limit) :
    Gives (m.multiply (Int64.ofNat a) (Int64.ofNat b)) (Int64.ofNat (a * b)) := by
  have hm := (h.agrees.multiply (h.inRange ha) (h.inRange hb)).gives (.pure _)
  rwa [Int64.ofNat_mul]

theorem divide (ha : a < limit) (hb : b < limit) (hb' : 0 < b) :
    Gives (m.divide (Int64.ofNat a) (Int64.ofNat b)) (Int64.ofNat (a / b)) := by
  have := h.small
  have hne := h.ne_zero hb hb'
  have hm := h.agrees.divide (h.inRange ha) (h.inRange hb) hne
  simp only [native, if_neg hne] at hm
  replace hm := hm.gives (.pure _)
  rwa [Int64.ofNat_div (by omega) (by omega)]

theorem modulus (ha : a < limit) (hb : b < limit) (hb' : 0 < b) :
    Gives (m.modulus (Int64.ofNat a) (Int64.ofNat b)) (Int64.ofNat (a % b)) := by
  have := h.small
  have hne := h.ne_zero hb hb'
  have hm := h.agrees.modulus (h.inRange ha) (h.inRange hb) hne
  simp only [native, if_neg hne] at hm
  replace hm := hm.gives (.pure _)
  rwa [Int64.ofNat_mod (by omega) (by omega)]

theorem holds (truth : Bool) : Gives (m.holds (Word.ofBool truth)) truth := by
  have := h.large
  rw [h.holds_eq]
  cases truth with
  | false => exact h.isPositive (a := 0) (by omega)
  | true => exact h.isPositive (a := 1) (by omega)

theorem holds_equals (ha : a < limit) (hb : b < limit) :
    Gives (m.equals (Int64.ofNat a) (Int64.ofNat b) >>= m.holds) (decide (a = b)) := by
  have := h.small
  have hm := (h.agrees.equals (h.inRange ha) (h.inRange hb)).gives (.pure _)
  have := hm.bind (h.holds _)
  simpa only [Word.ofNat_inj (show a < 2 ^ 63 by omega) (show b < 2 ^ 63 by omega)] using this

theorem holds_greaterThan (ha : a < limit) (hb : b < limit) :
    Gives (m.greaterThan (Int64.ofNat a) (Int64.ofNat b) >>= m.holds) (decide (b < a)) := by
  have := h.small
  have hm := (h.agrees.greaterThan (h.inRange ha) (h.inRange hb)).gives (.pure _)
  have := hm.bind (h.holds _)
  simpa only [Int64.ofNat_lt_iff_lt (show b < 2 ^ 63 by omega) (show a < 2 ^ 63 by omega)]
    using this

theorem holds_lessThan (ha : a < limit) (hb : b < limit) :
    Gives (m.lessThan (Int64.ofNat a) (Int64.ofNat b) >>= m.holds) (decide (a < b)) := by
  have := h.small
  have hm := (h.agrees.lessThan (h.inRange ha) (h.inRange hb)).gives (.pure _)
  have := hm.bind (h.holds _)
  simpa only [Int64.ofNat_lt_iff_lt (show a < 2 ^ 63 by omega) (show b < 2 ^ 63 by omega)]
    using this

end Serves

end Machine

namespace Arithmetic

theorem agreesBelow (a : Arithmetic) (limit : Nat) : (a.machine : Machine σ).AgreesBelow limit := by
  cases a with
  | counting => exact Machine.agreesBelow_counting limit
  | native => exact Machine.agreesBelow_native limit

theorem holds_eq (a : Arithmetic) : (a.machine : Machine σ).holds = a.machine.isPositive := by
  cases a <;> rfl

end Arithmetic

end PiDigits
