import PiDigits.Event.Timestamp
import PiDigits.Proofs.JsonReading

namespace PiDigits.Event.Timestamp

structure InCalendar (t : Timestamp) : Prop where
  year : isYear t.year = true
  month : 1 ≤ t.month ∧ t.month ≤ 12
  day : 1 ≤ t.day ∧ t.day ≤ daysIn t.year t.month
  hour : t.hour ≤ 23
  minute : t.minute ≤ 59
  second : t.second ≤ 60
  nanosecond : t.nanosecond < 10 ^ 9

/-! ### Setting back a clock -/

theorem daysIn_bounds (year : ℤ) (month : ℕ) : 28 ≤ daysIn year month ∧ daysIn year month ≤ 31 := by
  rw [daysIn]
  split_ifs <;> omega

variable {t : Timestamp}

theorem InCalendar.dayBefore (h : t.InCalendar) (hy : isYear t.dayBefore.year = true) :
    t.dayBefore.InCalendar := by
  have hmonth := h.month
  have hday := h.day
  have hdays := daysIn_bounds t.year (t.month - 1)
  rw [Timestamp.dayBefore] at hy ⊢
  split_ifs at hy ⊢ with hinner hlater
  · exact { h with day := ⟨Nat.le_sub_one_of_lt hinner, (Nat.sub_le _ _).trans hday.2⟩ }
  · exact { h with
      month := ⟨Nat.le_sub_one_of_lt hlater, (Nat.sub_le _ _).trans hmonth.2⟩
      day := ⟨le_trans (by norm_num) hdays.1, le_rfl⟩ }
  · exact { h with year := hy, month := by simp, day := by simp [daysIn] }

theorem InCalendar.dayAfter (h : t.InCalendar) (hy : isYear t.dayAfter.year = true) :
    t.dayAfter.InCalendar := by
  have hmonth := h.month
  have hday := h.day
  have hdays := daysIn_bounds t.year (t.month + 1)
  rw [Timestamp.dayAfter] at hy ⊢
  split_ifs at hy ⊢ with hinner hearlier
  · exact { h with day := ⟨Nat.le_add_left _ _, hinner⟩ }
  · exact { h with
      month := ⟨Nat.le_add_left _ _, hearlier⟩
      day := ⟨le_rfl, le_trans (by norm_num) hdays.1⟩ }
  · exact { h with year := hy, month := by simp, day := by simp [daysIn] }

theorem InCalendar.atMinute (h : t.InCalendar) (minute : ℕ) (hm : minute < minutesInDay) :
    (t.atMinute minute).InCalendar := by
  rw [minutesInDay] at hm
  have hhour : minute / 60 ≤ 23 := by omega
  have hminute : minute % 60 ≤ 59 := by omega
  exact { h with hour := hhour, minute := hminute }

theorem InCalendar.setBack (h : t.InCalendar) {minutes : ℤ}
    (hy : isYear (t.setBack minutes).year = true) : (t.setBack minutes).InCalendar := by
  have hclock := h.atMinute ((60 * t.hour + t.minute - minutes) % minutesInDay).toNat
    (by rw [minutesInDay]; omega)
  rw [Timestamp.setBack] at hy ⊢
  split_ifs at hy ⊢ with hbefore hafter
  · exact hclock.dayBefore hy
  · exact hclock.dayAfter hy
  · exact hclock

theorem InCalendar.setBack_zero (h : t.InCalendar) : t.setBack 0 = t := by
  have hhour := h.hour
  have hminute := h.minute
  have hmoved : ((60 * t.hour + t.minute - 0 : ℤ) % minutesInDay).toNat =
      60 * t.hour + t.minute := by
    rw [minutesInDay]
    omega
  have hclock : t.atMinute (60 * t.hour + t.minute) = t := by
    rw [Timestamp.atMinute, show (60 * t.hour + t.minute) / 60 = t.hour by omega,
      show (60 * t.hour + t.minute) % 60 = t.minute by omega]
  rw [Timestamp.setBack, hmoved, hclock, if_neg (by omega), if_neg (by rw [minutesInDay]; omega)]

/-! ### Whatever is read -/

section Reading

variable {α β : Type}

/-- Whenever the text is read, what has been read satisfies `P`. -/
def Yields (r : Scan α) (P : α → Prop) : Prop := ∀ text a rest, r text = .ok (a, rest) → P a

theorem Yields.bind {r : Scan α} {f : α → Scan β} {P : α → Prop} {Q : β → Prop}
    (hr : Yields r P) (hf : ∀ a, P a → Yields (f a) Q) : Yields (r >>= f) Q := by
  intro text b rest h
  simp only [Bind.bind, StateT.bind, Except.bind] at h
  split at h
  · cases h
  · exact hf _ (hr _ _ _ ‹_›) _ _ _ h

theorem Yields.pure {a : α} {P : α → Prop} (h : P a) : Yields (Pure.pure a : Scan α) P := by
  rintro _ _ _ ⟨⟩
  exact h

theorem Yields.throw {P : α → Prop} (flaw : Flaw) : Yields (throw flaw : Scan α) P := by
  rintro _ _ _ ⟨⟩

theorem yields_any (r : Scan α) : Yields r fun _ => True := fun _ _ _ _ => trivial

theorem yields_digits (most : ℕ) :
    Yields (digits most) fun ds => ∀ c ∈ ds, c.isDigit = true := by
  refine .bind (yields_any _) fun text _ => ?_
  dsimp only
  split_ifs
  · exact .throw _
  · exact .throw _
  · exact .bind (yields_any _) fun _ _ => .pure fun c hc => List.mem_takeWhile_imp hc

theorem yields_numberBetween (low high : ℕ) :
    Yields (numberBetween low high) fun n => low ≤ n ∧ n ≤ high := by
  refine .bind (yields_any _) fun _ _ => .bind (yields_any _) fun n _ => ?_
  split_ifs with h
  · exact .pure h
  · exact .throw _

theorem yields_numberAfter (c : Char) (low high : ℕ) :
    Yields (numberAfter c low high) fun n => low ≤ n ∧ n ≤ high :=
  .bind (yields_any _) fun _ _ => yields_numberBetween low high

theorem ofDigitChars_lt {ds : List Char} (h : ∀ c ∈ ds, c.isDigit = true) (k : ℕ) :
    Nat.ofDigitChars 10 ds k < (k + 1) * 10 ^ ds.length := by
  induction ds generalizing k with
  | nil => simp
  | cons c ds ih =>
    obtain ⟨hc, hds⟩ := List.forall_mem_cons.mp h
    have hdigit : c.toNat - '0'.toNat ≤ 9 := by
      have hnine : '9'.toNat = '0'.toNat + 9 := rfl
      rw [Char.isDigit_iff_toNat] at hc
      omega
    rw [Nat.ofDigitChars_cons, List.length_cons, Nat.pow_succ']
    calc Nat.ofDigitChars 10 ds (10 * k + (c.toNat - '0'.toNat))
        < (10 * k + (c.toNat - '0'.toNat) + 1) * 10 ^ ds.length := ih hds _
      _ ≤ (k + 1) * 10 * 10 ^ ds.length := Nat.mul_le_mul_right _ (by omega)
      _ = (k + 1) * (10 * 10 ^ ds.length) := Nat.mul_assoc _ _ _

theorem yields_fraction : Yields fraction fun n => n < 10 ^ 9 := by
  refine .bind (yields_any _) fun text _ => ?_
  split
  · refine .bind (yields_any _) fun _ _ => .bind (yields_digits _) fun ds hds => .pure ?_
    have hpadded : ∀ c ∈ (ds ++ List.replicate 9 '0').take 9, c.isDigit = true := by
      intro c hc
      rcases List.mem_append.mp (List.mem_of_mem_take hc) with hc | hc
      · exact hds c hc
      · rw [List.eq_of_mem_replicate hc]
        rfl
    have hlt := ofDigitChars_lt hpadded 0
    rwa [List.length_take_of_le (by simp), Nat.zero_add, Nat.one_mul] at hlt
  · exact .pure (by norm_num)

theorem yields_scan : Yields scan InCalendar := by
  refine .bind (yields_any _) fun year _ => ?_
  refine .bind (yields_numberAfter _ _ _) fun month hmonth => ?_
  refine .bind (yields_numberAfter _ _ _) fun day hday => ?_
  refine .bind (yields_any _) fun _ _ => ?_
  refine .bind (yields_numberBetween _ _) fun hour hhour => ?_
  refine .bind (yields_numberAfter _ _ _) fun minute hminute => ?_
  refine .bind (yields_numberAfter _ _ _) fun second hsecond => ?_
  refine .bind yields_fraction fun nanosecond hnanosecond => ?_
  refine .bind (yields_any _) fun _ _ => .bind (yields_any _) fun minutes _ => ?_
  refine .bind (yields_any _) fun _ _ => .bind (yields_any _) fun _ _ => ?_
  rw [universal]
  split_ifs with hdate hyear
  · refine .pure (InCalendar.setBack ?_ hyear)
    exact ⟨hdate.1, hmonth, ⟨hday.1, hdate.2.1⟩, hhour.2, hminute.2, hsecond.2, hnanosecond⟩
  · exact .throw _
  · exact .throw _

/-- Every time that is read is a moment of the calendar, whichever clock it was given by. -/
theorem ofText_inCalendar {s : String} (h : ofText s = .ok t) : t.InCalendar := by
  rw [ofText, StateT.run'] at h
  cases hscan : scan s.toList with
  | error flaw =>
    rw [hscan] at h
    cases h
  | ok read =>
    rw [hscan] at h
    cases h
    exact yields_scan _ _ _ hscan

example : (ofText "2024-03-01t00:30:00.5+01:00").toOption.map text =
    some "2024-02-29T23:30:00.500Z" := by
  decide +kernel

end Reading

/-! ### Whatever is written -/

section Writing

open Json (bind_eq get_bind isDigit_of_mem_toDigits)

variable {α β : Type} {text rest ds : List Char}

theorem set_bind (f : Unit → Scan β) (text text' : List Char) :
    (set text' >>= f) text = f () text' := rfl

def EndsDigits (rest : List Char) : Prop := ∀ c ∈ rest.head?, c.isDigit = false

theorem endsDigits_cons {c : Char} (h : c.isDigit = false) (rest : List Char) :
    EndsDigits (c :: rest) := by
  rintro _ ⟨⟩
  exact h

theorem trim_cons {c : Char} (h : isBlank c = false) (rest : List Char) :
    trim (c :: rest) = .ok ((), c :: rest) := by
  change Except.ok ((), (c :: rest).dropWhile isBlank) = _
  rw [List.dropWhile_cons_of_neg (by simp [h])]

theorem isBlank_of_isDigit {c : Char} (h : c.isDigit = true) : isBlank c = false := by
  have hzero : '0'.toNat = 48 := rfl
  have hnine : '9'.toNat = 57 := rfl
  rw [Char.isDigit_iff_toNat] at h
  simp only [isBlank, blanks, List.any_cons, List.any_nil]
  simp
  omega

theorem trim_append (hds : ∀ c ∈ ds, c.isDigit = true) (hne : ds ≠ []) (rest : List Char) :
    trim (ds ++ rest) = .ok ((), ds ++ rest) := by
  obtain ⟨c, cs, rfl⟩ := List.exists_cons_of_ne_nil hne
  exact trim_cons (isBlank_of_isDigit (hds c List.mem_cons_self)) _

theorem oneOf_cons {c : Char} {cs : List Char} (h : cs.contains c = true) (rest : List Char) :
    oneOf cs (c :: rest) = .ok (c, rest) := by
  rw [oneOf, get_bind]
  simp only [h, if_true]
  rfl

theorem digits_append {most : ℕ} (hds : ∀ c ∈ ds, c.isDigit = true) (hne : ds ≠ [])
    (hmost : ds.length ≤ most) (hrest : EndsDigits rest) :
    digits most (ds ++ rest) = .ok (ds, rest) := by
  have htake : ((ds ++ rest).take most).takeWhile Char.isDigit = ds := by
    rw [List.take_append, List.take_of_length_le hmost, List.takeWhile_append_of_pos hds]
    cases rest with
    | nil => simp
    | cons c rest =>
      cases most - ds.length with
      | zero => simp
      | succ k =>
        rw [List.take_succ_cons, List.takeWhile_cons_of_neg (by simp [hrest c rfl]),
          List.append_nil]
  rw [digits, get_bind, htake, if_neg (by simp [hne]), if_neg (by simp [hne]), List.drop_left]
  rfl

theorem toList_pad (size n : ℕ) :
    (pad size n).toList =
      List.replicate (size - (Nat.toDigits 10 n).length) '0' ++ Nat.toDigits 10 n := by
  rw [pad, String.toList_ofList]

theorem pad_ne_nil (size n : ℕ) : (pad size n).toList ≠ [] := by
  rw [toList_pad]
  exact List.append_ne_nil_of_right_ne_nil _ Nat.toDigits_ne_nil

theorem isDigit_of_mem_pad {size n : ℕ} : ∀ c ∈ (pad size n).toList, c.isDigit = true := by
  intro c hc
  rw [toList_pad, List.mem_append] at hc
  rcases hc with hc | hc
  · rw [List.eq_of_mem_replicate hc]
    rfl
  · exact isDigit_of_mem_toDigits hc

theorem length_pad {size n : ℕ} (hsize : 0 < size) (h : n < 10 ^ size) :
    (pad size n).toList.length = size := by
  have hlength := (Nat.length_toDigits_le_iff (by norm_num) hsize).mpr h
  rw [toList_pad, List.length_append, List.length_replicate, Nat.sub_add_cancel hlength]

theorem ofDigitChars_pad (size n : ℕ) : Nat.ofDigitChars 10 (pad size n).toList 0 = n := by
  rw [toList_pad, Nat.ofDigitChars_append, Nat.ofDigitChars_replicate_zero, Nat.mul_zero,
    Nat.ofDigitChars_ten_toDigits]

theorem number_pad {size most n : ℕ} (hmost : (pad size n).toList.length ≤ most)
    (hrest : EndsDigits rest) : number most ((pad size n).toList ++ rest) = .ok (n, rest) := by
  have hdigits := digits_append isDigit_of_mem_pad (pad_ne_nil size n) hmost hrest
  rw [number, bind_eq hdigits, ofDigitChars_pad]
  rfl

theorem numberBetween_pad {low high n : ℕ} (hn : low ≤ n ∧ n ≤ high) (hhigh : high < 100)
    (hrest : EndsDigits rest) :
    numberBetween low high ((pad 2 n).toList ++ rest) = .ok (n, rest) := by
  have htrim := trim_append isDigit_of_mem_pad (pad_ne_nil 2 n) rest
  have hlength : (pad 2 n).toList.length = 2 := length_pad (by norm_num) (by omega)
  rw [numberBetween, bind_eq htrim, bind_eq (number_pad hlength.le hrest), if_pos hn]
  rfl

theorem numberAfter_pad {c : Char} {low high n : ℕ} (hc : isBlank c = false)
    (hn : low ≤ n ∧ n ≤ high) (hhigh : high < 100) (hrest : EndsDigits rest) :
    numberAfter c low high (c :: ((pad 2 n).toList ++ rest)) = .ok (n, rest) := by
  have hmark : mark c (c :: ((pad 2 n).toList ++ rest)) = .ok ((), (pad 2 n).toList ++ rest) := by
    rw [mark, bind_eq (trim_cons hc _), bind_eq (oneOf_cons (by simp) _)]
    rfl
  rw [numberAfter, bind_eq hmark, numberBetween_pad hn hhigh hrest]

theorem toList_yearText (year : ℤ) :
    (yearText year).toList =
      if year < 0 then '-' :: (pad 4 year.natAbs).toList
      else if 9999 < year then '+' :: (pad 4 year.natAbs).toList
      else (pad 4 year.natAbs).toList := by
  rw [yearText]
  split_ifs <;> simp

theorem head?_pad_append {size n : ℕ} {c : Char} (hc : c.isDigit = false) (rest : List Char) :
    ((pad size n).toList ++ rest).head? ≠ some c := by
  obtain ⟨d, ds, hcons⟩ := List.exists_cons_of_ne_nil (pad_ne_nil size n)
  have hd : d.isDigit = true := isDigit_of_mem_pad d (hcons ▸ List.mem_cons_self)
  rw [hcons, List.cons_append, List.head?_cons, Ne, Option.some_inj]
  rintro rfl
  rw [hc] at hd
  cases hd

theorem signedNumber_yearText (year : ℤ) (hrest : EndsDigits rest) :
    signedNumber ((yearText year).toList ++ rest) = .ok (year, rest) := by
  rw [toList_yearText, signedNumber, get_bind]
  by_cases hnegative : year < 0
  · rw [if_pos hnegative, List.cons_append, List.head?_cons, List.tail_cons, if_neg (by decide),
      if_pos rfl, set_bind, bind_eq (number_pad (by simp; omega) hrest)]
    change Except.ok (-(year.natAbs : ℤ), rest) = _
    rw [show -(year.natAbs : ℤ) = year by omega]
  have hyear : (year.natAbs : ℤ) = year := by omega
  rw [if_neg hnegative]
  by_cases hlong : 9999 < year
  · rw [if_pos hlong, List.cons_append, List.head?_cons, List.tail_cons, if_pos rfl, set_bind,
      bind_eq (number_pad (by simp; omega) hrest)]
    change Except.ok ((year.natAbs : ℤ), rest) = _
    rw [hyear]
  · have hlength : (pad 4 year.natAbs).toList.length = 4 := length_pad (by norm_num) (by omega)
    rw [if_neg hlong, if_neg (head?_pad_append rfl rest), if_neg (head?_pad_append rfl rest),
      bind_eq (number_pad hlength.le hrest)]
    change Except.ok ((year.natAbs : ℤ), rest) = _
    rw [hyear]

theorem signedYear_yearText {year : ℤ} (hyear : isYear year = true) (hrest : EndsDigits rest) :
    signedYear ((yearText year).toList ++ rest) = .ok (year, rest) := by
  have htrim : trim ((yearText year).toList ++ rest) = .ok ((), (yearText year).toList ++ rest) := by
    rw [toList_yearText]
    split_ifs
    · exact trim_cons (by decide) _
    · exact trim_cons (by decide) _
    · exact trim_append isDigit_of_mem_pad (pad_ne_nil _ _) _
  have hword : Int32.minValue.toInt ≤ year ∧ year ≤ Int32.maxValue.toInt := by
    rw [isYear, Bool.and_eq_true, decide_eq_true_iff, decide_eq_true_iff] at hyear
    rw [show Int32.minValue.toInt = -2147483648 from rfl,
      show Int32.maxValue.toInt = 2147483647 from rfl]
    omega
  rw [signedYear, bind_eq htrim, bind_eq (signedNumber_yearText year hrest), if_pos hword]
  rfl

theorem fraction_point {size n : ℕ} (hsize : 0 < size) (hnine : size ≤ 9) (hn : n < 10 ^ size)
    (hrest : EndsDigits rest) :
    fraction (("." ++ pad size n).toList ++ rest) = .ok (10 ^ (9 - size) * n, rest) := by
  have hlength := length_pad hsize hn
  have hpadded : ((pad size n).toList ++ List.replicate 9 '0').take 9 =
      (pad size n).toList ++ List.replicate (9 - size) '0' := by
    rw [List.take_append, List.take_of_length_le (hlength.trans_le hnine), hlength,
      List.take_replicate, Nat.min_eq_left (Nat.sub_le _ _)]
  have htext : ("." ++ pad size n).toList ++ rest = '.' :: ((pad size n).toList ++ rest) := by simp
  have hdigits : digits ('.' :: ((pad size n).toList ++ rest)).length
      ((pad size n).toList ++ rest) = .ok ((pad size n).toList, rest) :=
    digits_append isDigit_of_mem_pad (pad_ne_nil size n) (by simp; omega) hrest
  rw [htext, fraction, get_bind, List.head?_cons, if_pos rfl, set_bind, List.tail_cons,
    bind_eq hdigits, hpadded, Nat.ofDigitChars_append, Nat.ofDigitChars_replicate_zero,
    ofDigitChars_pad]
  rfl

theorem fraction_fractionText {nanosecond : ℕ} (hn : nanosecond < 10 ^ 9)
    (hrest : EndsDigits rest) (hpoint : rest.head? ≠ some '.') :
    fraction ((fractionText nanosecond).toList ++ rest) = .ok (nanosecond, rest) := by
  rw [fractionText]
  split_ifs with hzero hmilli hmicro
  · rw [hzero, String.toList_empty, List.nil_append, fraction, get_bind, if_neg hpoint]
    rfl
  · rw [fraction_point (by norm_num) (by norm_num) (by omega) hrest,
      show 10 ^ (9 - 3) * (nanosecond / 1000000) = nanosecond by omega]
  · rw [fraction_point (by norm_num) (by norm_num) (by omega) hrest,
      show 10 ^ (9 - 6) * (nanosecond / 1000) = nanosecond by omega]
  · rw [fraction_point (by norm_num) (by norm_num) (by omega) hrest,
      show 10 ^ (9 - 9) * nanosecond = nanosecond by omega]

theorem endsDigits_fractionText (nanosecond : ℕ) (hrest : EndsDigits rest) :
    EndsDigits ((fractionText nanosecond).toList ++ rest) := by
  have hpoint (digits : String) : EndsDigits (("." ++ digits).toList ++ rest) := by
    rw [String.toList_append]
    exact endsDigits_cons rfl _
  rw [fractionText]
  split_ifs
  · exact hrest
  all_goals exact hpoint _

theorem toList_text (t : Timestamp) :
    t.text.toList =
      (yearText t.year).toList ++ '-' :: ((pad 2 t.month).toList ++ '-' :: ((pad 2 t.day).toList ++
        'T' :: ((pad 2 t.hour).toList ++ ':' :: ((pad 2 t.minute).toList ++
          ':' :: ((pad 2 t.second).toList ++ ((fractionText t.nanosecond).toList ++ ['Z'])))))) := by
  simp [text]

theorem scan_text (h : t.InCalendar) : scan t.text.toList = .ok (t, []) := by
  have hday : t.day ≤ 31 := h.day.2.trans (daysIn_bounds t.year t.month).2
  have hzulu : EndsDigits ['Z'] := endsDigits_cons rfl []
  rw [toList_text, scan, bind_eq (signedYear_yearText h.year (endsDigits_cons rfl _)),
    bind_eq (numberAfter_pad (by decide) h.month (by norm_num) (endsDigits_cons rfl _)),
    bind_eq (numberAfter_pad (by decide) ⟨h.day.1, hday⟩ (by norm_num) (endsDigits_cons rfl _)),
    bind_eq (oneOf_cons (by decide) _),
    bind_eq (numberBetween_pad ⟨Nat.zero_le _, h.hour⟩ (by norm_num) (endsDigits_cons rfl _)),
    bind_eq (numberAfter_pad (by decide) ⟨Nat.zero_le _, h.minute⟩ (by norm_num)
      (endsDigits_cons rfl _)),
    bind_eq (numberAfter_pad (by decide) ⟨Nat.zero_le _, h.second⟩ (by norm_num)
      (endsDigits_fractionText _ hzulu)),
    bind_eq (fraction_fractionText h.nanosecond hzulu (by decide)),
    bind_eq (trim_cons (by decide) _)]
  change universal t 0 [] = _
  rw [universal, if_pos ⟨h.year, h.day.2, by decide⟩, h.setBack_zero, if_pos h.year]
  rfl

/-- What is written of a moment of the calendar reads back. -/
theorem ofText_text (h : t.InCalendar) : ofText t.text = .ok t := by
  rw [ofText, StateT.run', scan_text h]
  rfl

end Writing

end PiDigits.Event.Timestamp
