import AccessList.Proofs.Equivalence

/-!
# Edits of rule lists

What compiled access lists do after a change of the rules is told by the rules read from the top.
A rule can be dropped exactly when the rules after it, or the default action, give its action to
the addresses that it decides. Turning allowances into denials and adding denials anywhere denies
no address less.
-/

namespace AccessList

/-! ## Reading rules from the top -/

namespace FirstMatch

/-- Rules after others are the default of those before them. -/
theorem lookup_append (rules later : List Rule) (defaultAction : Action) (ip : IpAddress) :
    lookup (rules ++ later) defaultAction ip = lookup rules (lookup later defaultAction ip) ip := by
  induction rules with
  | nil => rfl
  | cons rule rules ih => rw [List.cons_append, lookup_cons, lookup_cons, ih]

/-- Two defaults make no difference where a rule decides, and elsewhere they have to be the
same. -/
theorem lookup_eq_lookup_iff (rules : List Rule) (defaultAction other : Action) (ip : IpAddress) :
    lookup rules defaultAction ip = lookup rules other ip ↔
      ((∀ rule ∈ rules, ¬ rule.contains ip) → defaultAction = other) := by
  induction rules with
  | nil => simp
  | cons rule rules ih =>
    rw [lookup_cons, lookup_cons]
    by_cases hcontains : rule.contains ip = true
    · simp [hcontains]
    · simp [hcontains, ih]

end FirstMatch

namespace Acl

/-- The table of a family answers like the rules read from the top. -/
theorem lookup_table_ofRules (rules : List Rule) (defaultAction : Action) {family : Family}
    (a : Address family) :
    ((ofRules rules defaultAction).table family).lookup a =
      FirstMatch.lookup rules defaultAction (.of a) := by
  rw [← lookup_of]
  exact lookup_compile rules { defaultAction } a

/-- The table of a family is the same for other rules exactly when they answer alike for its
addresses. -/
theorem table_ofRules_eq_iff (rules others : List Rule) (defaultAction : Action)
    (family : Family) :
    (ofRules rules defaultAction).table family = (ofRules others defaultAction).table family ↔
      ∀ a : Address family, FirstMatch.lookup rules defaultAction (.of a) =
        FirstMatch.lookup others defaultAction (.of a) := by
  have hrules : (completed family rules { defaultAction }).entries.Pairwise Region.Before :=
    (isNormal_completed rules _).ordered
  have hothers : (completed family others { defaultAction }).entries.Pairwise Region.Before :=
    (isNormal_completed others _).ordered
  simp only [← lookup_table_ofRules]
  rw [table_ofRules, table_ofRules, LookupTable.ofSet_eq_iff hrules hothers, and_iff_left rfl,
    LookupTable.regions_ofSet_eq_iff hrules hothers]

/-- With one default action, rules compile to the same access list exactly when they answer alike
for every address of both families. -/
theorem ofRules_eq_iff (rules others : List Rule) (defaultAction : Action) :
    ofRules rules defaultAction = ofRules others defaultAction ↔
      ∀ ip, FirstMatch.lookup rules defaultAction ip =
        FirstMatch.lookup others defaultAction ip := by
  rw [eq_iff]
  constructor
  · rintro ⟨htable, _⟩ ip
    obtain ⟨family, a, rfl⟩ := ip.exists_eq_of
    exact (table_ofRules_eq_iff rules others defaultAction family).mp (htable family) a
  · intro hlookup
    constructor
    · intro family
      exact (table_ofRules_eq_iff rules others defaultAction family).mpr fun a => hlookup (.of a)
    · rw [ofRules, ofRules, defaultAction_compile, defaultAction_compile]

/-! ## Dropping a rule -/

/-- Whatever rules stand before and after it and whatever the default action is, a rule can be
dropped without any change of the compiled access list exactly when each address of its target
that no earlier rule concerns gets its action from the later rules as well. -/
theorem ofRules_append_singleton_append_eq_iff (before after : List Rule) (rule : Rule)
    (defaultAction : Action) :
    ofRules (before ++ [rule] ++ after) defaultAction = ofRules (before ++ after) defaultAction ↔
      ∀ ip, rule.contains ip → (∀ earlier ∈ before, ¬ earlier.contains ip) →
        FirstMatch.lookup after defaultAction ip = rule.action := by
  rw [ofRules_eq_iff]
  refine forall_congr' fun ip => ?_
  rw [List.append_assoc, List.singleton_append, FirstMatch.lookup_append,
    FirstMatch.lookup_append, FirstMatch.lookup_eq_lookup_iff, FirstMatch.lookup_cons]
  by_cases hcontains : rule.contains ip = true
  · simp only [hcontains, if_true, forall_const]
    exact forall_congr' fun _ => eq_comm
  · simp [hcontains]

/-- Two rules for the halves of the addresses leave nothing to one for all of them. -/
example :
    let lower : Rule := ⟨.v4 ⟨.first, 1, by decide⟩, .deny⟩
    let upper : Rule := ⟨.v4 ⟨.last, 1, by decide⟩, .deny⟩
    let all : Rule := ⟨.v4 ⟨.first, 0, by decide⟩, .allow⟩
    ofRules [lower, upper, all] .allow = ofRules [lower, upper] .allow ∧
      ofRules [lower, all] .deny ≠ ofRules [lower] .deny := by
  decide +kernel

end Acl

/-! ## Adding denials -/

/-- An action stays as it is or becomes a denial. -/
inductive Action.TightensTo : Action → Action → Prop where
  | same (action : Action) : TightensTo action action
  | deny (action : Action) : TightensTo action .deny

/-- What is denied stays denied. -/
theorem Action.TightensTo.eq_deny {action tightened : Action} (h : action.TightensTo tightened)
    (hdeny : action = .deny) : tightened = .deny := by
  cases h with
  | same => exact hdeny
  | deny => rfl

/-- The second list of rules comes from the first: all targets are kept in order, some actions
become denials, and there are more denials anywhere. -/
inductive Rule.TightensTo : List Rule → List Rule → Prop where
  | nil : TightensTo [] []
  /-- A rule keeps its target, and its action stays or becomes a denial. -/
  | keep {rule rule' : Rule} {rules tightened : List Rule} :
      rule'.target = rule.target → rule.action.TightensTo rule'.action →
        TightensTo rules tightened → TightensTo (rule :: rules) (rule' :: tightened)
  /-- A denial is added. -/
  | add {rules tightened : List Rule} (target : Target) :
      TightensTo rules tightened → TightensTo rules (⟨target, .deny⟩ :: tightened)

/-- If rules and the default action tighten, so does the answer for every address. -/
theorem Rule.TightensTo.lookup {rules tightened : List Rule} (h : TightensTo rules tightened)
    {defaultAction tightenedDefault : Action} (hdefault : defaultAction.TightensTo tightenedDefault)
    (ip : IpAddress) :
    (FirstMatch.lookup rules defaultAction ip).TightensTo
      (FirstMatch.lookup tightened tightenedDefault ip) := by
  induction h with
  | nil => exact hdefault
  | @keep rule rule' _ _ htarget haction _ ih =>
    have hcontains : rule'.contains ip = rule.contains ip := by
      rw [contains, contains, htarget]
    rw [FirstMatch.lookup_cons, FirstMatch.lookup_cons, hcontains]
    split
    · exact haction
    · exact ih
  | add target _ ih =>
    rw [FirstMatch.lookup_cons]
    split
    · exact .deny _
    · exact ih

namespace Acl

/-- However many allowances become denials, the default action among them, and however many
denials are added at whatever places, every address of either family that was denied stays
denied. -/
theorem lookup_ofRules_eq_deny_of_tightensTo {rules tightened : List Rule}
    {defaultAction tightenedDefault : Action} (hrules : Rule.TightensTo rules tightened)
    (hdefault : defaultAction.TightensTo tightenedDefault) (ip : IpAddress)
    (hdeny : (ofRules rules defaultAction).lookup ip = .deny) :
    (ofRules tightened tightenedDefault).lookup ip = .deny := by
  obtain ⟨family, a, rfl⟩ := ip.exists_eq_of
  rw [lookup_of, lookup_table_ofRules] at hdeny ⊢
  exact (hrules.lookup hdefault (.of a)).eq_deny hdeny

/-- A block is allowed inside a denied one. Four edits: all addresses of the other family are denied
first, the inner block is denied, then one more block, and by default all the rest. -/
theorem lookup_eq_deny_of_four_edits :
    let inner : Target := .v4 ⟨.ofNat 8, 30, by decide⟩
    let outer : Target := .v4 ⟨.ofNat 8, 28, by decide⟩
    let other : Target := .v4 ⟨.ofNat 4, 30, by decide⟩
    let v6 : Target := .v6 ⟨.first, 0, by decide⟩
    let rules : List Rule := [⟨inner, .allow⟩, ⟨outer, .deny⟩]
    let tightened : List Rule := [⟨v6, .deny⟩, ⟨inner, .deny⟩, ⟨other, .deny⟩, ⟨outer, .deny⟩]
    Rule.TightensTo rules tightened ∧ Action.TightensTo .allow .deny ∧
      (ofRules rules .allow).lookup (.v4 (.ofNat 13)) = .deny ∧
      (ofRules tightened .deny).lookup (.v4 (.ofNat 13)) = .deny := by
  intro inner outer other v6 rules tightened
  have hrules : Rule.TightensTo rules tightened :=
    .add v6 (.keep rfl (.deny _) (.add other (.keep rfl (.same _) .nil)))
  have hdeny : (ofRules rules .allow).lookup (.v4 (.ofNat 13)) = .deny := by decide +kernel
  exact ⟨hrules, .deny _, hdeny,
    lookup_ofRules_eq_deny_of_tightensTo hrules (.deny _) (.v4 (.ofNat 13)) hdeny⟩

end Acl
end AccessList
