import AccessList.Proofs.RuleEdits

/-!
# Independent families

The rules of a family are compiled as if those of the other family were not there. So rules can be
interleaved in any way that keeps the order within each family, and whatever is changed about the
rules of one family, the answers for the addresses of the other stay as they were.
-/

namespace AccessList

variable {family : Family}

namespace Rule

/-- The rules with a target of a family, in order. -/
def within (family : Family) (rules : List Rule) : List Rule :=
  rules.filter (·.target.family = family)

/-- A rule has a region in the family of its target only. -/
theorem within?_region_eq_none {rule : Rule} (h : rule.target.family ≠ family) :
    rule.region.within? family = none := by
  obtain ⟨target, action⟩ := rule
  cases family <;> cases target
  · exact absurd rfl h
  · rfl
  · rfl
  · exact absurd rfl h

/-- A rule is selected if its target is of the family. -/
theorem within_cons (family : Family) (rule : Rule) (rules : List Rule) :
    within family (rule :: rules) =
      if rule.target.family = family then rule :: within family rules else within family rules := by
  rw [within, List.filter_cons]
  simp only [decide_eq_true_eq]
  rfl

/-- A second selection of the rules of a family changes nothing. -/
theorem within_within (family : Family) (rules : List Rule) :
    within family (within family rules) = within family rules := by
  simp [within]

/-- The rules of a family have all the regions of that family. -/
theorem regions_within (family : Family) (rules : List Rule) :
    regions family (within family rules) = regions family rules := by
  induction rules with
  | nil => rfl
  | cons rule rules ih =>
    rw [within_cons]
    split
    · rw [regions_cons, regions_cons, ih]
    · next hfamily =>
      rw [regions_cons, within?_region_eq_none hfamily, ih]
      rfl

/-- Rules that agree on a family have the same regions in that family. -/
theorem regions_eq_of_within_eq {rules others : List Rule}
    (h : within family rules = within family others) :
    regions family rules = regions family others := by
  rw [← regions_within, h, regions_within]

end Rule

namespace Acl

/-- Rules that agree on a family are compiled to the same table of that family. -/
theorem table_ofRules_eq_of_within_eq {rules others : List Rule} (defaultAction : Action)
    (h : Rule.within family rules = Rule.within family others) :
    (ofRules rules defaultAction).table family = (ofRules others defaultAction).table family := by
  rw [table_ofRules, table_ofRules, completed, completed, decided, decided,
    Rule.regions_eq_of_within_eq h]

/-- The table of each family is compiled from the rules of that family alone. So rules that agree on
the family of an address give it the same answer, whatever the rules of the other family are; and
rules that agree on both families are compiled to the same access list, however they are
interleaved. An address is looked up in the table of its own family only, even if it is an IPv6
address that embeds an IPv4 address. -/
theorem ofRules_families_independent (rules others : List Rule) (defaultAction : Action) :
    (∀ family, (ofRules rules defaultAction).table family =
        (ofRules (Rule.within family rules) defaultAction).table family) ∧
      ((∀ family, Rule.within family rules = Rule.within family others) →
        ofRules rules defaultAction = ofRules others defaultAction) ∧
      (∀ ip : IpAddress, Rule.within ip.family rules = Rule.within ip.family others →
        (ofRules rules defaultAction).lookup ip = (ofRules others defaultAction).lookup ip) ∧
      ∀ (family : Family) (a : Address family), (ofRules rules defaultAction).lookup (.of a) =
        ((ofRules (Rule.within family rules) defaultAction).table family).lookup a := by
  have htable : ∀ family, (ofRules rules defaultAction).table family =
      (ofRules (Rule.within family rules) defaultAction).table family := fun family =>
    table_ofRules_eq_of_within_eq defaultAction (Rule.within_within family rules).symm
  refine ⟨htable, fun h => ?_, fun ip h => ?_, fun family a => ?_⟩
  · refine eq_iff.mpr ⟨fun family => table_ofRules_eq_of_within_eq defaultAction (h family), ?_⟩
    rw [ofRules, ofRules, defaultAction_compile, defaultAction_compile]
  · obtain ⟨family, a, rfl⟩ := ip.exists_eq_of
    rw [EitherFamily.family_of] at h
    rw [lookup_of, lookup_of, table_ofRules_eq_of_within_eq defaultAction h]
  · rw [lookup_of, htable]

/-- A rule for each family, in either order: the access list is the same, and the IPv6 address that
embeds the denied IPv4 address is allowed. -/
theorem ofRules_families_independent_of_embedded :
    let v4 : Rule := ⟨.v4 ⟨.ofNat 0x01020304, 32, by decide⟩, .deny⟩
    let v6 : Rule := ⟨.v6 ⟨.first, 0, by decide⟩, .allow⟩
    let embedded : Address .v6 := .ofNat 0xFFFF01020304
    (∀ family, Rule.within family [v4, v6] = Rule.within family [v6, v4]) ∧
      ofRules [v4, v6] .deny = ofRules [v6, v4] .deny ∧
      embedded.isMapped ∧
      Rule.within .v6 [v4, v6] = Rule.within .v6 [v6, v4] ∧
      (ofRules [v4, v6] .deny).lookup (.v6 embedded) =
        (ofRules [v6, v4] .deny).lookup (.v6 embedded) ∧
      (ofRules [v6, v4] .deny).lookup (.v6 embedded) = .allow := by
  intro v4 v6 embedded
  have hwithin : ∀ family, Rule.within family [v4, v6] = Rule.within family [v6, v4] := by
    intro family
    cases family <;> rfl
  obtain ⟨_, hacl, hlookup, _⟩ := ofRules_families_independent [v4, v6] [v6, v4] .deny
  exact ⟨hwithin, hacl hwithin, by decide, hwithin .v6, hlookup (.v6 embedded) (hwithin .v6),
    by decide +kernel⟩

end Acl
end AccessList
