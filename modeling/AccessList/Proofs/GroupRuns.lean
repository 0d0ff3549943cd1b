import AccessList.Address.Reader
import AccessList.Proofs.NumeralText

/-!
# Runs of groups

What a reader of groups does in one turn, and how eight groups are written. All that is said about
reading groups goes back to these cases.
-/

namespace AccessList.Spelling

open Text (skip? skip?_eq_some_iff)

variable {spelling : Spelling} {limit : Nat} {isFirst dotted : Bool}
  {text body rest after : List Char} {groups later : List Nat} {g : Nat}

/-! ## One turn -/

/-- Octets are taken for two groups, and end the run, where there is room for two. -/
theorem readRun_of_dotted (hlimit : limit ≠ 0) (hskip : skipColon? isFirst text = some body)
    (hread : spelling.readDottedGroups? body = some (groups, after)) :
    spelling.readRun (limit + 1) isFirst text = ⟨groups, true, after⟩ := by
  simp only [readRun, hskip, Option.bind_some, if_neg hlimit, hread]

/-- One group is taken where there are no octets. -/
theorem readRun_of_group (hskip : skipColon? isFirst text = some body)
    (hnone : spelling.readDottedGroups? body = none) (hread : group.read? body = some (g, rest))
    (hrun : spelling.readRun limit false rest = ⟨later, dotted, after⟩) :
    spelling.readRun (limit + 1) isFirst text = ⟨g :: later, dotted, after⟩ := by
  simp only [readRun, hskip, Option.bind_some, hnone, ite_self, hread, hrun]

/-- Where neither octets nor a group start, a run ends. -/
theorem readRun_eq_end (hoctets : (skipColon? isFirst text).bind spelling.readDottedGroups? = none)
    (hgroup : (skipColon? isFirst text).bind group.read? = none) (limit : Nat) :
    spelling.readRun limit isFirst text = ⟨[], false, text⟩ := by
  cases limit with
  | zero => rfl
  | succ limit => simp only [readRun, hoctets, ite_self, hgroup]

/-- A run of groups is made of octets, which end it, or of one group and a shorter run, or of
nothing. -/
theorem readRun_cases (h : spelling.readRun (limit + 1) isFirst text = ⟨groups, dotted, after⟩) :
    (∃ body, limit ≠ 0 ∧ skipColon? isFirst text = some body ∧ dotted = true ∧
      spelling.readDottedGroups? body = some (groups, after)) ∨
    (∃ body g rest later, skipColon? isFirst text = some body ∧ group.read? body = some (g, rest) ∧
      spelling.readRun limit false rest = ⟨later, dotted, after⟩ ∧ groups = g :: later) ∨
    groups = [] ∧ dotted = false ∧ after = text := by
  rw [readRun] at h
  split at h
  · next found rest hdotted =>
    cases h
    obtain ⟨hlimit, hbody⟩ := Option.ite_none_left_eq_some.mp hdotted
    obtain ⟨body, hskip, hread⟩ := Option.bind_eq_some_iff.mp hbody
    exact .inl ⟨body, hlimit, hskip, rfl, hread⟩
  · split at h
    · next g rest hgroup =>
      cases h
      obtain ⟨body, hskip, hread⟩ := Option.bind_eq_some_iff.mp hgroup
      exact .inr (.inl ⟨body, g, rest, _, hskip, hread, rfl, rfl⟩)
    · cases h
      exact .inr (.inr ⟨rfl, rfl, rfl⟩)

/-! ## Eight groups -/

/-- How eight groups are written in a spelling, and what is left of the text. -/
inductive SpellsGroups (spelling : Spelling) (text : List Char) : List Nat → List Char → Prop where
  /-- All groups are written. -/
  | full {groups : List Nat} {dotted : Bool} {rest : List Char} :
      spelling.readRun 8 true text = ⟨groups, dotted, rest⟩ → groups.length = 8 →
        SpellsGroups spelling text groups rest
  /-- A double colon stands for the zeros that are missing. -/
  | elided {front back : List Nat} {dotted : Bool} {later rest : List Char} :
      spelling.readRun 8 true text = ⟨front, false, ':' :: ':' :: later⟩ → front.length ≠ 8 →
        spelling.readRun (8 - (front.length + spelling.leastElided)) true later =
          ⟨back, dotted, rest⟩ →
        SpellsGroups spelling text
          (front ++ List.replicate (8 - (front.length + back.length)) 0 ++ back) rest

/-- The groups that are written are the ones that are read. -/
theorem readGroups?_eq_some_iff :
    spelling.readGroups? text = some (groups, after) ↔ SpellsGroups spelling text groups after := by
  constructor
  · intro h
    rcases hhead : spelling.readRun 8 true text with ⟨front, dotted, rest⟩
    simp only [readGroups?, hhead] at h
    split at h
    · next height =>
      cases h
      exact .full hhead height
    · next height =>
      split at h
      · cases h
      · next hdotted =>
        simp only [Option.bind_eq_bind, Option.bind_eq_some_iff, skip?_eq_some_iff] at h
        obtain ⟨_, rfl, later, rfl, htail⟩ := h
        cases htail
        rw [Bool.not_eq_true] at hdotted
        subst hdotted
        exact .elided hhead height rfl
  · intro h
    cases h with
    | full hhead height => simp only [readGroups?, hhead, height, if_true]
    | elided hhead height htail =>
      simp only [readGroups?, hhead, height, if_false, Bool.false_eq_true, skip?, if_true,
        Option.bind_eq_bind, Option.bind_some, htail]

end AccessList.Spelling
