import AccessList.Proofs.LineText

/-!
# Reading printed rules back

A block is printed with all bits of its address, so the reader of blocks gives back the block itself
and not only the addresses that it holds. The keyword of an action and the text of a target are one
field each, so the text of a rule is a line that says the rule.
-/

namespace AccessList

open Text (IsBlankText IsField HasTwoFields IsDigit isBlank noDigit_nil noDigit_cons numeral)

/-! ## Characters that can be seen -/

namespace Text

/-- White space is outside of the visible part of ASCII. -/
theorem isBlank_eq_false {c : Char} (h : 0x20 < c.toNat) (h' : c.toNat < 0x85) :
    isBlank c = false := by
  rw [isBlank, CodeRanges.contains, List.any_eq_false]
  intro range hrange
  have hout : range.2 ≤ 0x20 ∨ 0x85 ≤ range.1 := by
    revert range
    decide
  rw [Bool.and_eq_true, decide_eq_true_eq, decide_eq_true_eq]
  omega

/-- Digits are not white space. -/
theorem IsDigit.isBlank_eq_false {c : Char} (h : IsDigit c) : isBlank c = false := by
  obtain ⟨d, hd⟩ := Option.isSome_iff_exists.mp h
  have hfound := (Option.filter_eq_some_iff.mp hd).1
  have hcode : c.val.toNat = c.toNat := rfl
  have hends : ('0'.val.toNat = 48 ∧ '9'.val.toNat = 57) ∧
      ('a'.val.toNat = 97 ∧ 'f'.val.toNat = 102) ∧ 'A'.val.toNat = 65 ∧ 'F'.val.toNat = 70 := by
    decide
  simp only [Char.le_def, UInt32.le_iff_toNat_le] at hfound
  split at hfound
  · exact Text.isBlank_eq_false (by omega) (by omega)
  · split at hfound
    · exact Text.isBlank_eq_false (by omega) (by omega)
    · split at hfound
      · exact Text.isBlank_eq_false (by omega) (by omega)
      · cases hfound

/-- There is no line feed in a field. -/
theorem IsField.feed_notMem {field : List Char} (h : IsField field) : '\n' ∉ field := by
  intro hmem
  exact absurd (h.not_blank _ hmem) (by decide)

end Text

/-- The characters of addresses are not white space. -/
theorem Address.IsSign.isBlank_eq_false {c : Char} (h : Address.IsSign c) : isBlank c = false := by
  rcases h with hdigit | rfl | rfl
  · exact Text.IsDigit.isBlank_eq_false hdigit
  · decide
  · decide

/-- The keyword of an action is a field. -/
theorem Action.isField_text (action : Action) : IsField action.text.toList := by
  cases action <;> decide

/-! ## Blocks -/

namespace Block

variable {family : Family}

/-- The length of a block has room in its numeral. -/
theorem ample_lengthForm (family : Family) : (lengthForm family).Ample := by
  cases family <;> exact ⟨by decide, by decide, by decide, by decide⟩

/-- The numeral of a length is read back. -/
theorem read?_numeral_length (block : Block family) :
    (lengthForm family).read? (numeral 10 block.length) = some (block.length, []) := by
  have hradix : (lengthForm family).radix = 10 := by cases family <;> rfl
  have hbound : block.length < (lengthForm family).bound := by
    have hle := block.length_le
    cases family <;> exact Nat.lt_succ_of_le hle
  have hread := (ample_lengthForm family).read?_numeral hbound noDigit_nil
  rwa [hradix, List.append_nil] at hread

/-- The characters of a length are digits. -/
theorem isDigit_of_mem_numeral {n : Nat} {c : Char} (hc : c ∈ numeral 10 n) : IsDigit c :=
  Text.isSome_digit?_of_mem_numeral (by decide) (by decide) hc

/-- A slash and a length may stand behind an address. -/
theorem ends_slash_numeral (n : Nat) : Address.Ends ('/' :: numeral 10 n) := by
  refine ⟨⟨noDigit_cons (by decide), fun rest h => ?_⟩, fun hmem => ?_⟩
  · exact absurd (List.cons.inj h).1 (by decide)
  · rcases List.mem_cons.mp hmem with hslash | hdigit
    · exact absurd hslash (by decide)
    · exact absurd (isDigit_of_mem_numeral hdigit) (by unfold IsDigit; decide)

/-- A printed block is read back. -/
theorem ofChars?_chars (block : Block family) : ofChars? family block.chars = some block := by
  refine ofChars?_eq_some_iff.mpr ⟨numeral 10 block.length, ?_, block.read?_numeral_length⟩
  exact Address.read?_chars Spelling.known_lenient block.address (ends_slash_numeral block.length)

end Block

/-! ## Targets and rules -/

namespace Target

/-- A target is printed as its block. -/
theorem toList_text_of {family : Family} (block : Block family) :
    (text (.of block)).toList = block.chars := by
  cases family <;> exact String.toList_ofList

/-- A printed target is read back. -/
theorem isWritten_text (target : Target) : IsWritten target.text.toList target := by
  obtain ⟨family, block, rfl⟩ := target.exists_eq_of
  rw [toList_text_of, ← ofChars?_eq_some_iff, ofChars?_eq_some_of_iff]
  exact .inl block.ofChars?_chars

/-- However a target is written, it is a field. -/
theorem IsWritten.isField {target : Target} {text : List Char} (h : IsWritten text target) :
    IsField text := by
  refine ⟨h.ne_nil, fun c hc => ?_⟩
  rcases h.isSign_or_slash hc with hsign | rfl
  · exact hsign.isBlank_eq_false
  · decide

/-- The text of a target is a field. -/
theorem isField_text (target : Target) : IsField target.text.toList := target.isWritten_text.isField

end Target

/-- A rule is printed as the keyword of its action, a space and its target. -/
theorem Rule.toList_text (rule : Rule) :
    rule.text.toList = rule.action.text.toList ++ ' ' :: rule.target.text.toList := by
  rw [text, String.toList_append, String.toList_append, List.append_assoc]
  rfl

namespace Line

/-- Two fields with a space between them are two fields, whatever white space there is around
them. -/
theorem hasTwoFields_of_space {before first second after : List Char} (hfirst : IsField first)
    (hsecond : IsField second) (hbefore : IsBlankText before) (hafter : IsBlankText after) :
    HasTwoFields (before ++ ((first ++ ' ' :: second) ++ after)) first second := by
  refine ⟨hfirst, hsecond, before, [' '], after, ?_, hbefore, by decide, by decide, hafter⟩
  simp

/-- The text of a rule, with or without white space around it, is a line that says the rule. -/
theorem writes_text_of_rule (rule : Rule) {before after : List Char} (hbefore : IsBlankText before)
    (hafter : IsBlankText after) : Writes (before ++ (rule.text.toList ++ after)) (.rule rule) := by
  rw [rule.toList_text]
  exact .fields (hasTwoFields_of_space rule.action.isField_text rule.target.isField_text hbefore
    hafter) (.rule rule.action rule.target.isWritten_text)

end Line
end AccessList
