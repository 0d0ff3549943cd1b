import AccessList.Proofs.BoundaryOrigin
import AccessList.Proofs.RuleEdits

/-!
# Opposite rules

Nothing on the way from rules to tables prefers one action over the other: rules with the opposite
actions and the opposite default action are compiled to the same boundaries, and what was allowed
is denied and the other way around.
-/

namespace AccessList

variable {family : Family}

/-- Opposite actions differ exactly where the actions do. -/
theorem Action.negate_inj {action other : Action} :
    action.negate = other.negate ↔ action = other := by
  cases action <;> cases other <;> simp [negate]

/-! ## Opposite regions -/

namespace Region

/-- Opposite regions give the opposite answers. -/
theorem find?_map_negate (regions : List (Region family)) (a : Address family) :
    find? (regions.map negate) a = (find? regions a).map Action.negate := by
  induction regions with
  | nil => rfl
  | cons r regions ih =>
    have hmem : a ∈ r.negate.range ↔ a ∈ r.range := Iff.rfl
    rw [List.map_cons, find?_cons, find?_cons, ih]
    simp only [hmem]
    split <;> rfl

/-- Opposite regions can be joined exactly where the regions can. -/
theorem separate_negate {r s : Region family} : r.negate.Separate s.negate ↔ r.Separate s :=
  imp_congr Iff.rfl (not_congr Action.negate_inj)

/-- The opposite of a list in normal form is in normal form. -/
theorem IsNormal.map_negate {regions : List (Region family)} (h : IsNormal regions) :
    IsNormal (regions.map negate) where
  ordered := by
    rw [List.pairwise_map]
    exact h.ordered
  separate := by
    rw [List.isChain_map]
    exact h.separate.imp fun _ _ hsep => separate_negate.mpr hsep

end Region

/-! ## Opposite rules -/

/-- Rules with the opposite actions give the opposite answer, if the default action is the
opposite one as well. -/
theorem FirstMatch.lookup_map_negate (rules : List Rule) (defaultAction : Action)
    (ip : IpAddress) :
    lookup (rules.map Rule.negate) defaultAction.negate ip =
      (lookup rules defaultAction ip).negate := by
  induction rules with
  | nil => rfl
  | cons rule rules ih =>
    have hcontains : rule.negate.contains ip = rule.contains ip := rfl
    rw [List.map_cons, lookup_cons, lookup_cons, ih, hcontains]
    split <;> rfl

namespace Acl

/-- Once the default action decides the rest, every address is decided as by the rules read from
the top. -/
theorem find?_completed (rules : List Rule) (settings : Settings) (a : Address family) :
    (completed family rules settings).find? a =
      some (FirstMatch.lookup rules settings.defaultAction (.of a)) := by
  rw [completed, IntervalSet.find?_insert_full (isNormal_decided rules settings).ordered,
    find?_decided, FirstMatch.lookup]
  cases rules.find? (·.contains (.of a)) <;> rfl

/-- The regions of a family are the entries once all is decided. -/
theorem regions_ofRules (rules : List Rule) (defaultAction : Action) :
    ((ofRules rules defaultAction).table family).regions =
      (completed family rules { defaultAction }).entries := by
  rw [table_ofRules, LookupTable.regions_ofSet (isNormal_completed rules _).ordered]
  exact filled_completed rules { defaultAction }

/-- Opposite rules decide all addresses by the opposite entries. -/
theorem entries_completed_map_negate (rules : List Rule) (defaultAction : Action) :
    (completed family (rules.map Rule.negate) { defaultAction := defaultAction.negate }).entries =
      (completed family rules { defaultAction }).entries.map Region.negate := by
  refine (isNormal_completed _ _).eq_of_find?_eq (isNormal_completed rules _).map_negate
    fun a => ?_
  have hrules := find?_completed rules { defaultAction } a
  have hopposite :=
    find?_completed (rules.map Rule.negate) { defaultAction := defaultAction.negate } a
  rw [IntervalSet.find?] at hrules hopposite
  rw [Region.find?_map_negate, hrules, hopposite, FirstMatch.lookup_map_negate]
  rfl

/-- Whatever the rules and the default action are, the opposite ones are compiled to the same
boundaries and the opposite regions in both families, and they give every address of either
family the opposite answer. -/
theorem ofRules_map_negate (rules : List Rule) (defaultAction : Action) :
    let acl := ofRules rules defaultAction
    let opposite := ofRules (rules.map Rule.negate) defaultAction.negate
    (∀ family, (opposite.table family).boundaries = (acl.table family).boundaries ∧
        (opposite.table family).regions = (acl.table family).regions.map Region.negate) ∧
      ∀ ip, opposite.lookup ip = (acl.lookup ip).negate := by
  intro acl opposite
  refine ⟨fun family => ⟨?_, ?_⟩, fun ip => ?_⟩
  · rw [boundaries_ofRules, boundaries_ofRules, entries_completed_map_negate, List.map_map]
    rfl
  · rw [regions_ofRules, regions_ofRules, entries_completed_map_negate]
  · obtain ⟨family, a, rfl⟩ := ip.exists_eq_of
    rw [lookup_of, lookup_of, lookup_table_ofRules, lookup_table_ofRules,
      FirstMatch.lookup_map_negate]

end Acl
end AccessList
