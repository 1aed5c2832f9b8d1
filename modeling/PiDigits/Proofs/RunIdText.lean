import Mathlib.Algebra.Ring.Nat
import PiDigits.Event.RunId

namespace PiDigits.Event.RunId

variable {text digits : List Char}

theorem readGroups?_cons {size : Nat} {sizes : List Nat} (hs : sizes ≠ []) :
    readGroups? (size :: sizes) text = some digits ↔
      ∃ group rest digits', text = group ++ '-' :: rest ∧ group.length = size ∧
        (∀ c ∈ group, isDigit c = true) ∧ readGroups? sizes rest = some digits' ∧
        digits = group ++ digits' := by
  rw [readGroups?.eq_3 _ _ _ hs]
  constructor
  · intro h
    split at h
    · rename_i hgroup
      rw [Bool.and_eq_true, decide_eq_true_iff, List.all_eq_true] at hgroup
      split at h
      · rename_i rest hdrop
        obtain ⟨digits', hread, rfl⟩ := Option.map_eq_some_iff.mp h
        refine ⟨_, rest, digits', ?_, hgroup.1, hgroup.2, hread, rfl⟩
        rw [← hdrop, List.take_append_drop]
      · cases h
    · cases h
  · rintro ⟨group, rest, digits', rfl, rfl, hgroup, hread, rfl⟩
    simpa [hread] using hgroup

theorem writeGroups_append {sizes : List Nat} (hs : sizes ≠ []) (group digits : List Char) :
    writeGroups (group.length :: sizes) (group ++ digits) =
      group ++ '-' :: writeGroups sizes digits := by
  rw [writeGroups.eq_3 _ _ _ hs, List.take_left, List.drop_left]

theorem readGroups?_eq_some_iff {sizes : List Nat} :
    readGroups? sizes text = some digits ↔
      text = writeGroups sizes digits ∧ digits.length = sizes.sum ∧
        ∀ c ∈ digits, isDigit c = true := by
  induction sizes generalizing text digits with
  | nil => cases text <;> cases digits <;> simp [readGroups?, writeGroups]
  | cons size sizes ih =>
    by_cases hs : sizes = []
    · subst hs
      rw [readGroups?, writeGroups, Option.ite_none_right_eq_some, Option.some_inj]
      constructor
      · rintro ⟨hdigits, rfl⟩
        simpa using hdigits
      · rintro ⟨rfl, hdigits⟩
        simpa using hdigits
    · rw [readGroups?_cons hs, List.sum_cons]
      constructor
      · rintro ⟨group, rest, digits', rfl, rfl, hgroup, hread, rfl⟩
        obtain ⟨rfl, hlength, hdigits⟩ := ih.mp hread
        refine ⟨(writeGroups_append hs group digits').symm, by rw [List.length_append, hlength], ?_⟩
        exact List.forall_mem_append.mpr ⟨hgroup, hdigits⟩
      · rintro ⟨rfl, hlength, hdigits⟩
        have hgroup : (digits.take size).length = size := by
          rw [List.length_take]
          omega
        have htext := writeGroups_append hs (digits.take size) (digits.drop size)
        rw [hgroup, List.take_append_drop] at htext
        refine ⟨digits.take size, _, digits.drop size, htext, hgroup,
          fun c hc => hdigits c (List.mem_of_mem_take hc), ih.mpr ⟨rfl, ?_, ?_⟩,
          (List.take_append_drop size digits).symm⟩
        · rw [List.length_drop]
          omega
        · exact fun c hc => hdigits c (List.mem_of_mem_drop hc)

theorem bare_eq_iff {c : Char} (hc : isDigit c = true) (body : List Char) :
    bare text = c :: body ↔
      text = c :: body ∨ text = '{' :: (c :: body) ++ ['}'] ∨
        text = "urn:uuid:".toList ++ c :: body := by
  constructor
  · intro h
    unfold bare at h
    split at h
    · split at h
      · rename_i rest hlast
        obtain ⟨front, rfl⟩ := List.getLast?_eq_some_iff.mp hlast
        rw [List.dropLast_concat] at h
        rw [h]
        exact .inr (.inl rfl)
      · exact .inl h
    · rw [h]
      exact .inr (.inr (by simp))
    · exact .inl h
  · rintro (rfl | rfl | rfl)
    · unfold bare
      split
      · rename_i heq
        cases heq
        cases hc
      · rename_i heq
        cases heq
        cases hc
      · rfl
    · rw [List.cons_append, bare, List.getLast?_concat, if_pos rfl, List.dropLast_concat]
    · simp [bare]

theorem exists_writeGroups_eq (hlength : digits.length = 32)
    (hdigits : ∀ c ∈ digits, isDigit c = true) :
    ∃ c body, writeGroups groups digits = c :: body ∧ isDigit c = true ∧ '-' ∈ c :: body := by
  cases digits with
  | nil => cases hlength
  | cons c digits =>
    exact ⟨c, _, rfl, hdigits c List.mem_cons_self, by simp [writeGroups]⟩

theorem readGroups?_eq_none (h : '-' ∈ text) : readGroups? [32] text = none := by
  rw [Option.eq_none_iff_forall_ne_some]
  intro digits hread
  obtain ⟨rfl, -, hdigits⟩ := readGroups?_eq_some_iff.mp hread
  cases hdigits '-' h

/-- An id is read from its digits alone, from the groups that it is written in, and from the groups
in braces or after their name. -/
theorem ofText?_eq_some_iff {s : String} {r : RunId} :
    ofText? s = some r ↔
      ∃ digits : List Char, digits.length = 32 ∧ (∀ c ∈ digits, isDigit c = true) ∧
        r.digits = digits.map Char.toLower ∧
        (s.toList = digits ∨ s.toList = writeGroups groups digits ∨
          s.toList = '{' :: writeGroups groups digits ++ ['}'] ∨
          s.toList = "urn:uuid:".toList ++ writeGroups groups digits) := by
  rw [ofText?, Option.map_eq_some_iff]
  constructor
  · rintro ⟨digits, hread, rfl⟩
    rw [Option.or_eq_some_iff] at hread
    refine ⟨digits, ?_⟩
    rcases hread with hread | ⟨-, hread⟩
    · obtain ⟨htext, hlength, hdigits⟩ := readGroups?_eq_some_iff.mp hread
      exact ⟨hlength, hdigits, rfl, .inl htext⟩
    · obtain ⟨htext, hlength, hdigits⟩ := readGroups?_eq_some_iff.mp hread
      obtain ⟨c, body, hbody, hc, -⟩ := exists_writeGroups_eq hlength hdigits
      rw [hbody, bare_eq_iff hc] at htext
      rw [hbody]
      exact ⟨hlength, hdigits, rfl, .inr htext⟩
  · rintro ⟨digits, hlength, hdigits, hr, htext⟩
    obtain ⟨c, body, hbody, hc, hhyphen⟩ := exists_writeGroups_eq hlength hdigits
    refine ⟨digits, ?_, ?_⟩
    · rw [Option.or_eq_some_iff, readGroups?_eq_some_iff, readGroups?_eq_some_iff]
      rw [hbody] at htext
      rcases htext with htext | htext
      · exact .inl ⟨htext, hlength, hdigits⟩
      · refine .inr ⟨readGroups?_eq_none ?_, ?_, hlength, hdigits⟩
        · rcases htext with htext | htext | htext <;> rw [htext] <;> simp_all
        · rw [hbody, bare_eq_iff hc]
          exact htext
    · cases r
      rw [← hr]

theorem toLower_toLower {c : Char} (h : isDigit c = true) : c.toLower.toLower = c.toLower := by
  have hlower : ∀ d ∈ "0123456789abcdef".toList, d.toLower = d := by simp
  exact hlower c.toLower (List.contains_iff_mem.mp h)

/-- What has been read is written in a form that reads back. -/
theorem ofText?_text {s : String} {r : RunId} (h : ofText? s = some r) : ofText? r.text = some r := by
  obtain ⟨digits, hlength, hdigits, hr, -⟩ := ofText?_eq_some_iff.mp h
  refine ofText?_eq_some_iff.mpr ⟨r.digits, ?_, ?_, ?_, .inr (.inl ?_)⟩
  · rw [hr, List.length_map, hlength]
  · rw [hr, List.forall_mem_map]
    intro c hc
    rw [isDigit, toLower_toLower (hdigits c hc)]
    exact hdigits c hc
  · rw [hr, List.map_map]
    exact (List.map_congr_left fun c hc => toLower_toLower (hdigits c hc)).symm
  · rw [text, String.toList_ofList]

end PiDigits.Event.RunId
