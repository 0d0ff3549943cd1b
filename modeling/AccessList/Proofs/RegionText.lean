import AccessList.Proofs.AddressText
import AccessList.Region

/-!
# Reading regions off their text

A list of regions is printed without its structure: a single address stands for its range, a mark
in front for the action, and signs in between keep bounds and regions apart. None of these signs
is used in addresses, so the text still tells which regions were printed.
-/

namespace AccessList

open Address (IsSign isSign_of_mem_chars)

variable {family : Family}

/-! ## Ranges -/

namespace Range

/-- The text of a range is one address, or two with a dash between them. -/
theorem toList_text (r : Range family) :
    r.text.toList = if r.lo = r.hi then r.lo.chars else r.lo.chars ++ '-' :: r.hi.chars := by
  unfold text
  split
  · exact String.toList_ofList
  · simp [Address.text]

/-- The text of a range has signs of addresses, and at most a dash between two of them. -/
theorem isSign_or_of_mem_text {r : Range family} {c : Char} (hc : c ∈ r.text.toList) :
    IsSign c ∨ c = '-' := by
  rw [toList_text] at hc
  split at hc
  · exact .inl (isSign_of_mem_chars hc)
  · rw [List.mem_append, List.mem_cons] at hc
    rcases hc with hc | hc | hc
    · exact .inl (isSign_of_mem_chars hc)
    · exact .inr hc
    · exact .inl (isSign_of_mem_chars hc)

/-- Every range is printed. -/
theorem toList_text_ne_nil (r : Range family) : r.text.toList ≠ [] := by
  rw [toList_text]
  split
  · exact r.lo.chars_ne_nil
  · exact List.append_ne_nil_of_left_ne_nil r.lo.chars_ne_nil _

/-- There is no dash in addresses. -/
theorem dash_notMem_chars (a : Address family) : '-' ∉ a.chars :=
  fun h => absurd (isSign_of_mem_chars h) (by decide)

/-- No two ranges are printed alike. -/
theorem text_inj {r s : Range family} : r.text = s.text ↔ r = s := by
  refine ⟨fun h => ?_, congrArg text⟩
  rw [← String.toList_inj, toList_text, toList_text] at h
  split at h
  · next hr =>
    split at h
    · next hs =>
      have hlo := Address.chars_inj.mp h
      exact ext hlo (hr.symm.trans (hlo.trans hs))
    · exact absurd (h ▸ List.mem_append_right _ List.mem_cons_self) (dash_notMem_chars r.lo)
  · split at h
    · exact absurd (h ▸ List.mem_append_right _ List.mem_cons_self) (dash_notMem_chars s.lo)
    · obtain ⟨hlo, hhi⟩ :=
        Text.append_cons_inj (dash_notMem_chars r.lo) (dash_notMem_chars s.lo) h
      exact ext (Address.chars_inj.mp hlo) (Address.chars_inj.mp hhi)

end Range

/-! ## Regions -/

namespace Region

/-- A denied region is its range with a mark in front. -/
theorem toList_text_of_deny {r : Region family} (h : r.action = .deny) :
    r.text.toList = '!' :: r.range.text.toList := by
  simp [text, h, Action.isDeny]

/-- An allowed region is its range alone. -/
theorem toList_text_of_allow {r : Region family} (h : r.action = .allow) :
    r.text.toList = r.range.text.toList := by
  simp [text, h, Action.isDeny]

/-- The text of a region has the signs of its range, and at most a mark in front. -/
theorem isSign_or_of_mem_text {r : Region family} {c : Char} (hc : c ∈ r.text.toList) :
    IsSign c ∨ c = '-' ∨ c = '!' := by
  have hrange : c ∈ r.range.text.toList → IsSign c ∨ c = '-' ∨ c = '!' := fun hmem =>
    (Range.isSign_or_of_mem_text hmem).imp_right .inl
  cases haction : r.action with
  | allow =>
    rw [toList_text_of_allow haction] at hc
    exact hrange hc
  | deny =>
    rw [toList_text_of_deny haction] at hc
    rcases List.mem_cons.mp hc with hc | hc
    · exact .inr (.inr hc)
    · exact hrange hc

/-- Every region is printed. -/
theorem toList_text_ne_nil (r : Region family) : r.text.toList ≠ [] := by
  cases haction : r.action with
  | allow =>
    rw [toList_text_of_allow haction]
    exact r.range.toList_text_ne_nil
  | deny =>
    rw [toList_text_of_deny haction]
    exact List.cons_ne_nil _ _

/-- There is no mark in ranges. -/
theorem mark_notMem_text (r : Range family) : '!' ∉ r.text.toList :=
  fun h => absurd (Range.isSign_or_of_mem_text h) (by decide)

/-- No two regions are printed alike. -/
theorem text_inj {r s : Region family} : r.text = s.text ↔ r = s := by
  refine ⟨fun h => ?_, congrArg text⟩
  rw [← String.toList_inj] at h
  cases hr : r.action with
  | allow =>
    cases hs : s.action with
    | allow =>
      rw [toList_text_of_allow hr, toList_text_of_allow hs] at h
      exact ext (Range.text_inj.mp (String.toList_inj.mp h)) (hr.trans hs.symm)
    | deny =>
      rw [toList_text_of_allow hr, toList_text_of_deny hs] at h
      exact absurd (h ▸ List.mem_cons_self) (mark_notMem_text r.range)
  | deny =>
    cases hs : s.action with
    | allow =>
      rw [toList_text_of_deny hr, toList_text_of_allow hs] at h
      exact absurd (h ▸ List.mem_cons_self) (mark_notMem_text s.range)
    | deny =>
      rw [toList_text_of_deny hr, toList_text_of_deny hs] at h
      have hrange := (List.cons.inj h).2
      exact ext (Range.text_inj.mp (String.toList_inj.mp hrange)) (hr.trans hs.symm)

/-! ## Lists of regions -/

/-- In a list, regions are separated by a comma and a space. -/
theorem toList_listText (regions : List (Region family)) :
    (listText regions).toList = [',', ' '].intercalate (regions.map (·.text.toList)) := by
  rw [listText, String.toList_intercalate, List.map_map]
  rfl

/-- No bracket stands in a list of regions. -/
theorem bracket_notMem_listText (regions : List (Region family)) :
    ']' ∉ (listText regions).toList := by
  intro h
  rw [toList_listText] at h
  rcases Text.exists_of_mem_intercalate h with h | ⟨text, htext, h⟩
  · exact absurd h (by decide)
  · obtain ⟨r, _, rfl⟩ := List.mem_map.mp htext
    exact absurd (isSign_or_of_mem_text h) (by decide)

/-- No two lists of regions are printed alike. -/
theorem listText_inj {regions others : List (Region family)} :
    listText regions = listText others ↔ regions = others := by
  refine ⟨fun h => ?_, congrArg listText⟩
  have htexts : ∀ regions : List (Region family),
      ∀ text ∈ regions.map (·.text.toList), text ≠ [] ∧ ',' ∉ text := by
    intro regions text htext
    obtain ⟨r, _, rfl⟩ := List.mem_map.mp htext
    exact ⟨r.toList_text_ne_nil, fun hcomma => absurd (isSign_or_of_mem_text hcomma) (by decide)⟩
  rw [← String.toList_inj, toList_listText, toList_listText] at h
  have hall := Text.intercalate_inj (htexts regions) (htexts others) h
  exact (List.map_inj_right fun _ _ heq => text_inj.mp (String.toList_inj.mp heq)).mp hall

end Region
end AccessList
