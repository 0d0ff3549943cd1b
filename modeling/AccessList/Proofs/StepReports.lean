import AccessList.Proofs.Reports

/-!
# Reports step by step

The library reports an insertion in one go. A machine reports each step when it takes it, and looks
before every report whether reports are wanted: a builder in its settings, a set in its own flag,
and a copy of a set in the flag that it was copied with. Both report the same events and give the
same results, so what is shown of compiling with reports in one go holds of the machine.
-/

namespace AccessList

variable {family : Family}

namespace Logged

variable {α β : Type}

/-- Results with the same value and the same events are the same. -/
theorem ext {x y : Logged α} (hvalue : x.value = y.value) (hevents : x.events = y.events) :
    x = y := by
  cases x
  cases y
  cases hvalue
  cases hevents
  rfl

/-- Reporting obeys the laws of computations in a row. -/
instance : LawfulMonad Logged := LawfulMonad.mk' Logged
  (fun x => ext rfl (List.append_nil x.events))
  (fun _ _ => rfl)
  (fun x f g => ext rfl (List.append_assoc x.events (f x.value).events _))

/-- A function applied to a result is applied to its value. -/
@[simp] theorem value_map (f : α → β) (x : Logged α) : (f <$> x).value = f x.value := rfl

/-- A function applied to a result keeps its events. -/
@[simp] theorem events_map (f : α → β) (x : Logged α) : (f <$> x).events = x.events :=
  List.append_nil x.events

end Logged

/-! ## Sweeps -/

namespace Sweep

/-- Sweeps what remains of a range over entries, with a report of every step if the flag is set, and
gives the regions that are left behind. -/
def runStepwise (traced : Bool) (action : Action) :
    List (Region family) → Option (Range family) → Logged (List (Region family))
  | entries, none => return entries
  | [], some rest => return [⟨rest, action⟩]
  | entry :: later, some rest =>
    let beyond := rest.above? entry.range.hi
    let keep : Logged (List (Region family)) := do
      Logged.reportIf traced [.stepped (.kept entry beyond)]
      return entry :: (← runStepwise traced action later beyond)
    match rest.below? entry.range.lo with
    | none => keep
    | some gap => do
      let remaining := rest.above? gap.hi
      Logged.reportIf traced [.stepped (.filled ⟨gap, action⟩ remaining)]
      if remaining.isNone then return ⟨gap, action⟩ :: entry :: later
      else return ⟨gap, action⟩ :: (← keep)

/-- Step by step a sweep leaves the same regions behind, with the flag or without it. -/
theorem value_runStepwise (traced : Bool) (action : Action) (entries : List (Region family))
    (rest : Option (Range family)) :
    (runStepwise traced action entries rest).value = (run action entries rest).pieces action := by
  induction entries generalizing rest with
  | nil => cases rest <;> simp [runStepwise, Region.ofRange?]
  | cons entry later ih =>
    cases rest with
    | none => simp [runStepwise]
    | some rest =>
      rw [runStepwise, run]
      cases rest.below? entry.range.lo with
      | none => simp [ih, pieces, after, Step.piece]
      | some gap =>
        cases hrest : rest.above? gap.hi with
        | none => simp [hrest, pieces, Step.piece]
        | some remaining => simp [hrest, ih, pieces, after, Step.piece]

/-- Step by step a sweep reports its steps in order if the flag is set, and nothing otherwise. -/
theorem events_runStepwise (traced : Bool) (action : Action) (entries : List (Region family))
    (rest : Option (Range family)) :
    (runStepwise traced action entries rest).events =
      if traced then (run action entries rest).steps.map .stepped else [] := by
  induction entries generalizing rest with
  | nil => cases rest <;> simp [runStepwise, run]
  | cons entry later ih =>
    cases rest with
    | none => simp [runStepwise, run]
    | some rest =>
      rw [runStepwise, run]
      cases rest.below? entry.range.lo with
      | none => cases traced <;> simp [ih, after]
      | some gap =>
        cases hrest : rest.above? gap.hi with
        | none => cases traced <;> simp [hrest]
        | some remaining => cases traced <;> simp [hrest, ih, after]

end Sweep

/-! ## Insertions and tables -/

/-- Inserts a region, and looks before each report whether the set is traced. -/
def IntervalSet.insertStepwise (set : IntervalSet family) (incoming : Region family) :
    Logged (IntervalSet family) := do
  Logged.reportIf set.traced [.insertionStarted set.entries incoming]
  let pieces ← Sweep.runStepwise set.traced incoming.action set.entries (some incoming.range)
  let result := { set with entries := Region.coalesce pieces }
  Logged.reportIf result.traced [.insertionDone result.entries]
  return result

/-- Step by step an insertion leaves the same set behind and reports the same. -/
theorem IntervalSet.insertStepwise_eq (set : IntervalSet family) (incoming : Region family) :
    set.insertStepwise incoming = set.insertLogged incoming := by
  apply Logged.ext
  · simp only [insertStepwise, insertLogged, Logged.value_bind, Logged.value_pure,
      Sweep.value_runStepwise]
    rfl
  · cases htraced : set.traced <;>
      simp [insertStepwise, insertLogged, insertionEvents, htraced, Sweep.events_runStepwise,
        Sweep.value_runStepwise, insert, sweep]

/-- Makes a table: the default action is inserted into a copy of the set, which is traced if the set
is. -/
def LookupTable.ofSetStepwise (set : IntervalSet family) (defaultAction : Action) :
    Logged (LookupTable family) := do
  let filled ← set.insertStepwise (.full defaultAction)
  return {
    starts := (filled.entries.map (·.range.lo)).toArray
    denyOnEven := (filled.entries.head?.elim defaultAction (·.action)).isDeny
    defaultAction }

/-- Step by step the same table is made, with the same reports. -/
theorem LookupTable.ofSetStepwise_eq (set : IntervalSet family) (defaultAction : Action) :
    ofSetStepwise set defaultAction = ofSetLogged set defaultAction := by
  rw [ofSetStepwise, IntervalSet.insertStepwise_eq, IntervalSet.insertLogged, bind_assoc]
  rfl

/-! ## Builders -/

namespace Builder

/-- Adds a rule, and looks before each report whether reports are wanted. -/
def addStepwise (builder : Builder) (rule : Rule) : Logged Builder := do
  Logged.reportIf builder.settings.traceInserts [.adding builder.ruleCount rule]
  let ruleCount := builder.ruleCount + 1
  match rule.region with
  | .v4 region => return { builder with v4 := ← builder.v4.insertStepwise region, ruleCount }
  | .v6 region => return { builder with v6 := ← builder.v6.insertStepwise region, ruleCount }

/-- Compiles what is decided, and looks before each report whether reports are wanted. -/
def buildStepwise (builder : Builder) : Logged Acl := do
  let defaultAction := builder.settings.defaultAction
  let v4 ← builder.v4.insertStepwise (.full defaultAction)
  let v6 ← builder.v6.insertStepwise (.full defaultAction)
  let v4 ← LookupTable.ofSetStepwise v4 defaultAction
  let v6 ← LookupTable.ofSetStepwise v6 defaultAction
  Logged.report (.compiled builder.ruleCount v4.size v6.size defaultAction)
  return { v4, v6, defaultAction }

/-- Step by step a rule is added alike, with the same reports. -/
theorem addStepwise_eq (builder : Builder) (rule : Rule) :
    builder.addStepwise rule = builder.add rule := by
  simp only [addStepwise, IntervalSet.insertStepwise_eq]
  rfl

/-- Step by step the same access list is built, with the same reports. -/
theorem buildStepwise_eq (builder : Builder) : builder.buildStepwise = builder.build := by
  simp only [buildStepwise, IntervalSet.insertStepwise_eq, LookupTable.ofSetStepwise_eq]
  rfl

/-- Adding rules in order is adding one after the other. -/
theorem addAll_eq_foldlM (builder : Builder) (rules : List Rule) :
    builder.addAll rules = rules.foldlM add builder := by
  induction rules generalizing builder with
  | nil => rfl
  | cons rule rules ih =>
    rw [addAll, List.foldlM_cons]
    exact congrArg (builder.add rule >>= ·) (funext ih)

end Builder

namespace Acl

/-- Compiles rules, the most important one first, and looks before each report whether reports are
wanted. -/
def compileStepwise (rules : List Rule) (settings : Settings) : Logged Acl := do
  (← rules.foldlM Builder.addStepwise (Builder.new settings)).buildStepwise

/-- Step by step, compiling gives the same access list and reports the same events. -/
theorem compileStepwise_eq (rules : List Rule) (settings : Settings) :
    compileStepwise rules settings = compile rules settings := by
  have hadd : Builder.addStepwise = Builder.add :=
    funext fun builder => funext builder.addStepwise_eq
  rw [compileStepwise, hadd, ← Builder.addAll_eq_foldlM, compile]
  exact congrArg (_ >>= ·) (funext Builder.buildStepwise_eq)

end Acl
end AccessList
