import AccessList.Builder
import AccessList.Proofs.TableLookup
import AccessList.Proofs.TopBits

/-!
# Compiled rules

Compiling keeps the families apart: in each it inserts the regions of the rules of that family in
order and makes a table of the outcome. So a compiled access list answers like its rules read
from the top.
-/

namespace AccessList

open Region (IsNormal)

/-- The regions of the rules of one family, in the order of the rules. -/
def Rule.regions (family : Family) (rules : List Rule) : List (Region family) :=
  rules.filterMap (·.region.within? family)

namespace Rule

variable {family : Family}

/-- A rule contributes its region in its own family only. -/
theorem regions_cons (rule : Rule) (rules : List Rule) :
    regions family (rule :: rules) =
      (rule.region.within? family).toList ++ regions family rules := by
  rw [regions, List.filterMap_cons]
  cases rule.region.within? family <;> rfl

/-- A rule concerns an address exactly when its region is of the address's family and holds the
address. -/
theorem contains_of_iff {rule : Rule} {a : Address family} :
    rule.contains (.of a) = true ↔
      ∃ region, rule.region.within? family = some region ∧ a ∈ region.range := by
  rw [contains, Target.contains_of_iff]
  obtain ⟨target, action⟩ := rule
  cases family <;> cases target <;> simp [region, EitherFamily.map, EitherFamily.within?]

/-- The region of a rule has the action of the rule. -/
theorem action_of_within?_region {rule : Rule} {region : Region family}
    (h : rule.region.within? family = some region) : region.action = rule.action := by
  obtain ⟨target, action⟩ := rule
  cases family <;> cases target <;>
    simp [Rule.region, EitherFamily.map, EitherFamily.within?] at h <;> simp [← h]

/-- The regions of rules, read from the top, answer like the first rule that concerns the
address. -/
theorem find?_regions (rules : List Rule) (a : Address family) :
    Region.find? (regions family rules) a =
      (rules.find? (·.contains (.of a))).map (·.action) := by
  induction rules with
  | nil => rfl
  | cons rule rules ih =>
    rw [regions_cons, Region.find?_append, ih]
    by_cases hcontains : rule.contains (.of a) = true
    · obtain ⟨region, hregion, hmem⟩ := contains_of_iff.mp hcontains
      simp [hregion, Region.find?_cons, hmem, hcontains, action_of_within?_region hregion]
    · have hnone : Region.find? (rule.region.within? family).toList a = none := by
        rw [Region.find?_eq_none_iff]
        intro region hregion hmem
        exact hcontains (contains_of_iff.mpr ⟨region, Option.mem_toList.mp hregion, hmem⟩)
      simp [hnone, hcontains]

end Rule

namespace Builder

variable {family : Family}

/-- What a builder has decided in a family. -/
def set (builder : Builder) : (family : Family) → IntervalSet family
  | .v4 => builder.v4
  | .v6 => builder.v6

/-- At first a builder has decided nothing, and its sets are traced as the settings say. -/
theorem set_new (settings : Settings) (family : Family) :
    (new settings).set family = { traced := settings.traceInserts } := by
  cases family <;> rfl

/-- Adding a rule inserts its region in its own family and leaves the other one alone. -/
theorem set_add (builder : Builder) (rule : Rule) (family : Family) :
    (builder.add rule).value.set family =
      (builder.set family).insertAll (rule.region.within? family).toList := by
  rw [add, Logged.value_bind]
  cases rule.region <;> cases family <;> rfl

/-- Adding a rule keeps the settings. -/
theorem settings_add (builder : Builder) (rule : Rule) :
    (builder.add rule).value.settings = builder.settings := by
  rw [add, Logged.value_bind]
  cases rule.region <;> rfl

/-- Adding rules inserts their regions in order. -/
theorem set_addAll (builder : Builder) (rules : List Rule) (family : Family) :
    (builder.addAll rules).value.set family =
      (builder.set family).insertAll (Rule.regions family rules) := by
  induction rules generalizing builder with
  | nil => rfl
  | cons rule rules ih =>
    rw [addAll, Logged.value_bind, ih, set_add, Rule.regions_cons]
    exact List.foldl_append.symm

/-- Adding rules keeps the settings. -/
theorem settings_addAll (builder : Builder) (rules : List Rule) :
    (builder.addAll rules).value.settings = builder.settings := by
  induction rules generalizing builder with
  | nil => rfl
  | cons rule rules ih => rw [addAll, Logged.value_bind, ih, settings_add]

/-- Building lets the default action decide the rest of each family and makes the tables. -/
theorem table_build (builder : Builder) (family : Family) :
    builder.build.value.table family =
      .ofSet ((builder.set family).insert (.full builder.settings.defaultAction))
        builder.settings.defaultAction := by
  cases family <;> rfl

/-- The access list has the default action of the settings. -/
theorem defaultAction_build (builder : Builder) :
    builder.build.value.defaultAction = builder.settings.defaultAction := rfl

end Builder

namespace Acl

variable {family : Family}

/-- What the rules of a family decide, before the default action decides the rest. -/
def decided (family : Family) (rules : List Rule) (settings : Settings) : IntervalSet family :=
  IntervalSet.insertAll { traced := settings.traceInserts } (Rule.regions family rules)

/-- What rules decide is in normal form. -/
theorem isNormal_decided (rules : List Rule) (settings : Settings) :
    IsNormal (decided family rules settings).entries :=
  IntervalSet.isNormal_insertAll (IntervalSet.isNormal_empty _) _

/-- What rules decide is decided by the first of them that concerns the address. -/
theorem find?_decided (rules : List Rule) (settings : Settings) (a : Address family) :
    (decided family rules settings).find? a =
      (rules.find? (·.contains (.of a))).map (·.action) := by
  rw [decided, IntervalSet.find?_insertAll .nil, Rule.find?_regions]
  rfl

/-- The set that a table is compiled from: the default action decides the rest already there. -/
def completed (family : Family) (rules : List Rule) (settings : Settings) : IntervalSet family :=
  (decided family rules settings).insert (.full settings.defaultAction)

/-- The set that a table is compiled from is in normal form. -/
theorem isNormal_completed (rules : List Rule) (settings : Settings) :
    IsNormal (completed family rules settings).entries :=
  IntervalSet.isNormal_insert (isNormal_decided rules settings).ordered _

/-- In each family, compiling makes a table of what the rules of the family decide. -/
theorem table_compile (rules : List Rule) (settings : Settings) (family : Family) :
    (compile rules settings).value.table family =
      .ofSet (completed family rules settings) settings.defaultAction := by
  rw [compile, Logged.value_bind, Builder.table_build, Builder.set_addAll, Builder.settings_addAll,
    Builder.set_new]
  rfl

/-- A compiled access list keeps the default action of its settings. -/
theorem defaultAction_compile (rules : List Rule) (settings : Settings) :
    (compile rules settings).value.defaultAction = settings.defaultAction := by
  rw [compile, Logged.value_bind, Builder.defaultAction_build, Builder.settings_addAll]
  rfl

/-- The table of a family is made of what its rules decide, with the default action for the rest. -/
theorem table_ofRules (rules : List Rule) (defaultAction : Action) (family : Family) :
    (ofRules rules defaultAction).table family =
      .ofSet (completed family rules { defaultAction }) defaultAction :=
  table_compile rules { defaultAction } family

/-- With any settings, a compiled access list answers like its rules read from the top. -/
theorem lookup_compile (rules : List Rule) (settings : Settings) (a : Address family) :
    (compile rules settings).value.lookup (.of a) =
      FirstMatch.lookup rules settings.defaultAction (.of a) := by
  rw [lookup_of, table_compile,
    LookupTable.lookup_ofSet (isNormal_completed rules settings).ordered, completed,
    IntervalSet.find?_insert_full (isNormal_decided rules settings).ordered, find?_decided,
    FirstMatch.lookup]
  cases rules.find? (·.contains (.of a)) <;> rfl

/-- For all rules, default actions and addresses of either family, the compiled access list gives
the action of the first rule that concerns the address, or else the default action. -/
theorem lookup_ofRules_eq_firstMatch (rules : List Rule) (defaultAction : Action)
    (ip : IpAddress) :
    (ofRules rules defaultAction).lookup ip = FirstMatch.lookup rules defaultAction ip := by
  cases ip with
  | v4 a => exact lookup_compile rules { defaultAction } a
  | v6 a => exact lookup_compile rules { defaultAction } a

end Acl
end AccessList
