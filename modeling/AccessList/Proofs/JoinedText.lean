/-!
# Texts with separators

Joined texts can be told apart again where the separator begins with a character that none of the
texts has: the first such character is where the first text ends.
-/

namespace AccessList.Text

variable {separator : List Char}

/-- Joined texts are the first text and the later ones with a separator in front of each. -/
theorem intercalate_cons (first : List Char) (later : List (List Char)) :
    separator.intercalate (first :: later) = first ++ later.flatMap (separator ++ ·) := by
  induction later generalizing first with
  | nil => simp
  | cons second later ih =>
    rw [List.intercalate_cons_cons, ih, List.flatMap_cons, List.append_assoc, List.append_assoc]

/-- A character of joined texts is one of the separator or of a text. -/
theorem exists_of_mem_intercalate {c : Char} {texts : List (List Char)}
    (hc : c ∈ separator.intercalate texts) : c ∈ separator ∨ ∃ text ∈ texts, c ∈ text := by
  cases texts with
  | nil => cases hc
  | cons first later =>
    rw [intercalate_cons, List.mem_append, List.mem_flatMap] at hc
    rcases hc with hc | ⟨text, htext, hc⟩
    · exact .inr ⟨first, List.mem_cons_self, hc⟩
    · rcases List.mem_append.mp hc with hc | hc
      · exact .inl hc
      · exact .inr ⟨text, List.mem_cons_of_mem _ htext, hc⟩

/-- There is one way only to cut a text where a character stands for the first time. -/
theorem append_cons_inj {c : Char} {front front' rest rest' : List Char} (hfront : c ∉ front)
    (hfront' : c ∉ front') (h : front ++ c :: rest = front' ++ c :: rest') :
    front = front' ∧ rest = rest' := by
  induction front generalizing front' with
  | nil =>
    cases front' with
    | nil => exact ⟨rfl, (List.cons.inj h).2⟩
    | cons d front' =>
      rw [(List.cons.inj h).1] at hfront'
      exact absurd List.mem_cons_self hfront'
  | cons d front ih =>
    cases front' with
    | nil =>
      rw [← (List.cons.inj h).1] at hfront
      exact absurd List.mem_cons_self hfront
    | cons d' front' =>
      obtain ⟨rfl, hlater⟩ := List.cons.inj h
      rw [List.mem_cons, not_or] at hfront hfront'
      obtain ⟨rfl, hrest⟩ := ih hfront.2 hfront'.2 hlater
      exact ⟨rfl, hrest⟩

/-- Where several texts are joined, the separator stands between the first two. -/
theorem mem_intercalate_cons_cons (c : Char) (gap first second : List Char)
    (later : List (List Char)) : c ∈ (c :: gap).intercalate (first :: second :: later) := by
  rw [List.intercalate_cons_cons]
  simp

/-- Texts that are not empty and do not have the character that separators begin with can be told
from what they are joined to. In particular a single text is not several ones, because it has no
separator in it. -/
theorem intercalate_inj {c : Char} {gap : List Char} {texts others : List (List Char)}
    (htexts : ∀ text ∈ texts, text ≠ [] ∧ c ∉ text)
    (hothers : ∀ text ∈ others, text ≠ [] ∧ c ∉ text)
    (h : (c :: gap).intercalate texts = (c :: gap).intercalate others) : texts = others := by
  induction texts generalizing others with
  | nil =>
    cases others with
    | nil => rfl
    | cons first' later' =>
      rw [intercalate_cons] at h
      exact absurd (List.append_eq_nil_iff.mp h.symm).1 (hothers first' List.mem_cons_self).1
  | cons first later ih =>
    obtain ⟨hfirst, hlater⟩ := List.forall_mem_cons.mp htexts
    cases others with
    | nil =>
      rw [intercalate_cons] at h
      exact absurd (List.append_eq_nil_iff.mp h).1 hfirst.1
    | cons first' later' =>
      obtain ⟨hfirst', hlater'⟩ := List.forall_mem_cons.mp hothers
      cases later with
      | nil =>
        rw [List.intercalate_singleton] at h
        cases later' with
        | nil => rw [h, List.intercalate_singleton]
        | cons second' later' =>
          rw [h] at hfirst
          exact absurd (mem_intercalate_cons_cons c gap first' second' later') hfirst.2
      | cons second later =>
        cases later' with
        | nil =>
          rw [List.intercalate_singleton] at h
          rw [← h] at hfirst'
          exact absurd (mem_intercalate_cons_cons c gap first second later) hfirst'.2
        | cons second' later' =>
          simp only [List.intercalate_cons_cons, List.append_assoc, List.cons_append] at h
          obtain ⟨rfl, hrest⟩ := append_cons_inj hfirst.2 hfirst'.2 h
          rw [ih hlater hlater' (List.append_cancel_left hrest)]

end AccessList.Text
