import AccessList.Proofs.RuleListText

/-!
# Single rules and lists of one line

A text without line feeds can be read as a rule or as a rule list. Both readings see the same line,
so they agree as far as the two kinds of outcome allow: a rule is the list of that rule, what is
wrong with the line is wrong with the list at line one, and a list without rules is no rule.
-/

namespace AccessList

open Text (IsBlankText HasTwoFields)

namespace Line

variable {text : List Char}

/-- Only white space and comments say nothing. -/
theorem writes_blank_iff : Writes text .blank ↔ IsBlankText text ∨ IsComment text := by
  constructor
  · intro h
    cases h with
    | empty hblank => exact .inl hblank
    | comment hcomment => exact .inr hcomment
    | fields _ hsay => cases hsay
  · rintro (hblank | hcomment)
    · exact .empty hblank
    · exact .comment hcomment

/-- Only the keyword of an action and the word `all` give a default action. -/
theorem writes_defaultAction_iff {action : Action} :
    Writes text (.defaultAction action) ↔
      HasTwoFields text action.text.toList ['a', 'l', 'l'] := by
  constructor
  · intro h
    cases h with
    | fields hfields hsay =>
      cases hsay
      exact hfields
  · exact fun hfields => .fields hfields (.defaultAction action)

/-- A line says something or something is wrong with it. -/
theorem exists_writes_or_ownFault (text : List Char) :
    (∃ line, Writes text line) ∨ ∃ fault, OwnFault text fault := by
  cases hline : ofChars text with
  | error fault => exact .inr ⟨fault, ofChars_eq_error_iff.mp hline⟩
  | ok line => exact .inl ⟨line, ofChars_eq_ok_iff.mp hline⟩

end Line

namespace RuleList

variable {text : String} {line : Line}

/-! ## One line -/

/-- The list that one line says. -/
theorem ofText_of_writes (htext : '\n' ∉ text.toList) (hline : Line.Writes text.toList line) :
    ofText text = .ok (ofSaid [line]) := by
  rw [ofText, ofLines, readLines_lines_of_notMem htext, readLines,
    Line.ofChars_eq_ok_iff.mpr hline]
  cases line <;> rfl

/-- What is wrong with one line is wrong at line one. -/
theorem ofText_of_ownFault (htext : '\n' ∉ text.toList) {fault : LineFault}
    (hfault : Line.OwnFault text.toList fault) : ofText text = .error (.malformed 1 fault) := by
  rw [ofText, ofLines, readLines_lines_of_notMem htext, readLines,
    Line.ofChars_eq_error_iff.mpr hfault]
  rfl

/-- A text of one line is a list exactly if the line says what the list is. -/
theorem ofText_eq_ok_iff_writes (htext : '\n' ∉ text.toList) {list : RuleList} :
    ofText text = .ok list ↔ ∃ line, Line.Writes text.toList line ∧ list = ofSaid [line] := by
  constructor
  · intro h
    rcases Line.exists_writes_or_ownFault text.toList with ⟨line, hline⟩ | ⟨fault, hfault⟩
    · rw [ofText_of_writes htext hline] at h
      cases h
      exact ⟨line, hline, rfl⟩
    · rw [ofText_of_ownFault htext hfault] at h
      cases h
  · rintro ⟨line, hline, rfl⟩
    exact ofText_of_writes htext hline

end RuleList

/-! ## One rule -/

namespace Rule

variable {text : String}

/-- A text is a rule exactly if, as a line, it says the rule. -/
theorem ofText_eq_ok_iff_writes {rule : Rule} :
    ofText text = .ok rule ↔ Line.Writes text.toList (.rule rule) := by
  rw [← Line.ofChars_eq_ok_iff, ofText]
  split <;> simp_all

/-- A text that says nothing has no fields. -/
theorem ofText_of_writes_blank (hline : Line.Writes text.toList .blank) :
    ofText text = .error (.malformed 1 (.fieldCount 0)) := by
  rw [ofText, Line.ofChars_eq_ok_iff.mpr hline]

/-- A default action has no target that a rule could have. -/
theorem ofText_of_writes_defaultAction {action : Action}
    (hline : Line.Writes text.toList (.defaultAction action)) :
    ofText text = .error (.malformed 1 (.invalidTarget "all")) := by
  rw [ofText, Line.ofChars_eq_ok_iff.mpr hline]

/-- What is wrong with the line is wrong with the rule. -/
theorem ofText_of_ownFault {fault : LineFault} (hfault : Line.OwnFault text.toList fault) :
    ofText text = .error (.malformed 1 fault) := by
  rw [ofText, Line.ofChars_eq_error_iff.mpr hfault]

end Rule

/-! ## Both readings -/

namespace RuleList

variable {text : String}

/-- The list of a line has a rule only if the line says the rule. -/
theorem eq_rule_of_ofSaid_eq {line : Line} {rule : Rule}
    (h : ofSaid [line] = ⟨[rule], .allow⟩) : line = .rule rule := by
  cases line with
  | blank => cases h
  | defaultAction action => cases h
  | rule said =>
    cases h
    rfl

/-- A text of one line is a rule exactly if it is the list of that rule alone. -/
theorem rule_ofText_eq_ok_iff (htext : '\n' ∉ text.toList) {rule : Rule} :
    Rule.ofText text = .ok rule ↔ ofText text = .ok ⟨[rule], .allow⟩ := by
  rw [Rule.ofText_eq_ok_iff_writes, ofText_eq_ok_iff_writes htext]
  constructor
  · exact fun hline => ⟨.rule rule, hline, rfl⟩
  · rintro ⟨line, hline, hsaid⟩
    exact eq_rule_of_ofSaid_eq hsaid.symm ▸ hline

/-- A text of one line is a list without rules exactly if it says nothing or gives the default
action. -/
theorem exists_ofText_eq_ok_without_rules_iff (htext : '\n' ∉ text.toList) :
    (∃ list, ofText text = .ok list ∧ list.rules = []) ↔
      Line.Writes text.toList .blank ∨
        ∃ action, Line.Writes text.toList (.defaultAction action) := by
  constructor
  · rintro ⟨list, hlist, hrules⟩
    obtain ⟨line, hline, rfl⟩ := (ofText_eq_ok_iff_writes htext).mp hlist
    cases line with
    | blank => exact .inl hline
    | defaultAction action => exact .inr ⟨action, hline⟩
    | rule said => cases hrules
  · rintro (hline | ⟨action, hline⟩)
    · exact ⟨_, ofText_of_writes htext hline, rfl⟩
    · exact ⟨_, ofText_of_writes htext hline, rfl⟩

/-- A text without line feeds is a rule exactly if it is the list of that rule alone, with the
default to let addresses through. It is a list without rules exactly if it is white space or a
comment, and has no fields for a rule, or if it gives the default action, and has a target that no
rule has. In all other cases it is neither, for the same reason at line one. -/
theorem ofText_of_single_line (htext : '\n' ∉ text.toList) :
    (∀ rule, Rule.ofText text = .ok rule ↔ ofText text = .ok ⟨[rule], .allow⟩) ∧
      ((∃ list, ofText text = .ok list ∧ list.rules = []) ↔
        (IsBlankText text.toList ∨ Line.IsComment text.toList) ∨
          ∃ action : Action, HasTwoFields text.toList action.text.toList ['a', 'l', 'l']) ∧
      (IsBlankText text.toList ∨ Line.IsComment text.toList →
        Rule.ofText text = .error (.malformed 1 (.fieldCount 0))) ∧
      (∀ action : Action, HasTwoFields text.toList action.text.toList ['a', 'l', 'l'] →
        Rule.ofText text = .error (.malformed 1 (.invalidTarget "all"))) ∧
      ((¬ ∃ rule, Rule.ofText text = .ok rule) →
        (¬ ∃ list, ofText text = .ok list ∧ list.rules = []) →
          ∃ fault, ofText text = .error (.malformed 1 fault) ∧
            Rule.ofText text = .error (.malformed 1 fault)) := by
  simp only [← Line.writes_blank_iff, ← Line.writes_defaultAction_iff]
  refine ⟨fun rule => rule_ofText_eq_ok_iff htext, exists_ofText_eq_ok_without_rules_iff htext,
    Rule.ofText_of_writes_blank, fun action => Rule.ofText_of_writes_defaultAction,
    fun hrule hlist => ?_⟩
  rw [exists_ofText_eq_ok_without_rules_iff htext, not_or] at hlist
  rcases Line.exists_writes_or_ownFault text.toList with ⟨line, hline⟩ | ⟨fault, hfault⟩
  · cases line with
    | blank => exact absurd hline hlist.1
    | defaultAction action => exact absurd ⟨action, hline⟩ hlist.2
    | rule said => exact absurd ⟨said, Rule.ofText_eq_ok_iff_writes.mpr hline⟩ hrule
  · exact ⟨fault, ofText_of_ownFault htext hfault, Rule.ofText_of_ownFault hfault⟩

/-- A rule with a carriage return between its fields and one at the end is read in both ways, and a
comment is a list without rules but no rule. -/
theorem ofText_of_single_line_with_returns :
    let text := "\u3000deny\r10.0.0.1\u0085\r"
    let comment := "\t# deny 10.0.0.1"
    let rule : Rule := ⟨.v4 ⟨.ofNat 0x0A000001, 32, by decide⟩, .deny⟩
    '\n' ∉ text.toList ∧ Rule.ofText text = .ok rule ∧ ofText text = .ok ⟨[rule], .allow⟩ ∧
      '\n' ∉ comment.toList ∧ (∃ list, ofText comment = .ok list ∧ list.rules = []) ∧
      Rule.ofText comment = .error (.malformed 1 (.fieldCount 0)) := by
  intro text comment rule
  have htext : '\n' ∉ text.toList := by decide
  have hcomment : '\n' ∉ comment.toList := by decide
  have hrule : Rule.ofText text = .ok rule := by
    rw [Rule.ofText_eq_ok_iff_writes, ← Line.ofChars_eq_ok_iff]
    decide +kernel
  have hsign : IsBlankText comment.toList ∨ Line.IsComment comment.toList :=
    .inr ⟨['\t'], " deny 10.0.0.1".toList, by decide, by decide⟩
  obtain ⟨hsame, _⟩ := ofText_of_single_line htext
  obtain ⟨_, hempty, hnone, _⟩ := ofText_of_single_line hcomment
  exact ⟨htext, hrule, (hsame rule).mp hrule, hcomment, hempty.mpr (.inl hsign), hnone hsign⟩

end RuleList
end AccessList
