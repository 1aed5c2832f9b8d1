import PiDigits.Proofs.TrueDigits

/-!
Computations of different lengths agree. The digits of an expansion but for the last are those of
pi however many there are, so two expansions part at the last digit of the shorter one at the
earliest.
-/

namespace PiDigits

theorem Expansion.getElem_sharedLength_ne (ds es : List Digit)
    (hd : sharedLength ds es < ds.length) (he : sharedLength ds es < es.length) :
    ds[sharedLength ds es] ≠ es[sharedLength ds es] := by
  fun_induction sharedLength ds es with
  | case1 d ds es ih => exact ih (by simpa using hd) (by simpa using he)
  | case2 d ds e es hne => exact hne
  | case3 ds es hcons =>
    cases ds with
    | nil => cases hd
    | cons d ds =>
      cases es with
      | nil => cases he
      | cons e es => exact (hcons d ds e es rfl rfl).elim

theorem TrueDigits.min_length_le {n n' m m' : ℕ} {ds es : List Digit} (h : TrueDigits n m ds)
    (h' : TrueDigits n' m' es) :
    min ds.length es.length ≤ Expansion.sharedLength ds es + 1 := by
  by_contra hshort
  apply Expansion.getElem_sharedLength_ne ds es (by omega) (by omega)
  have hvalue := (h.place (Expansion.sharedLength ds es) (by omega)).trans
    (h'.place (Expansion.sharedLength ds es) (by omega)).symm
  exact congrArg Digit.mk (UInt8.toNat_inj.1 hvalue)

namespace Spigot

theorem collect_start {digitCount : UInt64} (a : Arithmetic) (h : Admissible digitCount)
    (hn : 1 ≤ digitCount.toNat) :
    ∃ (s : Spigot Unit) (e : Expansion) (s' : Spigot Unit) (m : ℕ),
      start a.machine () digitCount = .ok s ∧ s.policy = .resetBoth ∧
      collect s = .ok (.ok e) s' ∧ TrueDigits digitCount.toNat m e.digits := by
  obtain ⟨s, hs, hfollows⟩ := start_follows () digitCount (h.serves_machine a)
  obtain ⟨hdigits, hended⟩ := Exact.final_ended .resetBoth h.lt_roundLimit
  obtain ⟨_, s', hs', rfl, -⟩ := collect_ends hfollows (Exact.sound_start _)
  have htrue := hended.trueDigits (Exact.counted_final _ _) (Exact.sound_final _ _)
    (Exact.spelled_final _) (Exact.valued_final _ _) hn
  rw [← hdigits] at htrue
  exact ⟨s, _, s', _, hs, hfollows.policy, hs', htrue⟩

theorem collect_stable (a b : Arithmetic) (n m : UInt64) (hn : Admissible n) (hm : Admissible m)
    (hn' : 1 ≤ n.toNat) (hm' : 1 ≤ m.toNat) :
    ∃ (s t : Spigot Unit) (d e : Expansion) (s' t' : Spigot Unit),
      start a.machine () n = .ok s ∧ s.policy = .resetBoth ∧ collect s = .ok (.ok d) s' ∧
      start b.machine () m = .ok t ∧ t.policy = .resetBoth ∧ collect t = .ok (.ok e) t' ∧
      min d.length e.length ≤ d.commonPrefixLength e + 1 := by
  obtain ⟨s, d, s', _, hs, hpolicy, hs', hd⟩ := collect_start a hn hn'
  obtain ⟨t, e, t', _, ht, hpolicy', ht', he⟩ := collect_start b hm hm'
  exact ⟨s, t, d, e, s', t', hs, hpolicy, hs', ht, hpolicy', ht', hd.min_length_le he⟩

theorem collect_stable_forty_sixty :
    Admissible 40 ∧ Admissible 60 ∧ 1 ≤ (40 : UInt64).toNat ∧ 1 ≤ (60 : UInt64).toNat ∧
      ∃ (s t : Spigot Unit) (d e : Expansion) (s' t' : Spigot Unit),
        start Arithmetic.counting.machine () 40 = .ok s ∧ collect s = .ok (.ok d) s' ∧
        start Arithmetic.native.machine () 60 = .ok t ∧ collect t = .ok (.ok e) t' ∧
        min d.length e.length ≤ d.commonPrefixLength e + 1 := by
  obtain ⟨s, t, d, e, s', t', hs, -, hs', ht, -, ht', hlength⟩ :=
    collect_stable .counting .native 40 60 (by decide) (by decide) (by decide) (by decide)
  exact ⟨by decide, by decide, by decide, by decide, s, t, d, e, s', t', hs, hs', ht, ht', hlength⟩

end Spigot

end PiDigits
