import AccessList.Proofs.StepReports
import AccessList.RuleList.Basic

/-!
# Ways to compile

A rule list can be compiled in several ways: as it is, with settings, or by a builder that takes in
the rules in any number of calls, and each time with tracing on or off. All of them give the same
access list. A run without tracing is a run with tracing from which the traces were deleted, step
by step: this is shown for one rule first, then for all of them, and then for the tables.
-/

namespace AccessList

variable {family : Family}

/-! ## Deleting traces -/

namespace Logged

variable {α β : Type}

/-- A run of which only the events that are no traces are kept. -/
def withoutTraces (x : Logged α) : Logged α := ⟨x.value, x.notices⟩

/-- Traces can be deleted part by part. -/
theorem withoutTraces_bind (x : Logged α) (f : α → Logged β) :
    (x >>= f).withoutTraces = x.withoutTraces >>= fun a => (f a).withoutTraces :=
  ext rfl (notices_bind x f)

/-- Of a report of traces nothing is left, whether it is made or not. -/
theorem withoutTraces_reportIf (condition : Bool) {events : List Event}
    (h : ∀ event ∈ events, event.level = .trace) :
    (reportIf condition events).withoutTraces = pure () :=
  ext rfl (notices_reportIf condition h)

/-- Where the traces were deleted there are none. -/
theorem level_of_mem_withoutTraces {x : Logged α} {event : Event}
    (h : event ∈ x.withoutTraces.events) : event.level ≠ .trace := by
  simpa using (List.mem_filter.mp h).2

end Logged

/-! ## Runs without tracing -/

namespace IntervalSet

/-- A set with the same entries that is not traced. -/
def untraced (set : IntervalSet family) : IntervalSet family := { set with traced := false }

/-- An insertion into a set that is not traced is one into a traced set without the traces. -/
theorem insertLogged_untraced (set : IntervalSet family) (incoming : Region family) :
    set.untraced.insertLogged incoming =
      untraced <$> (set.insertLogged incoming).withoutTraces := by
  rw [insertLogged, insertLogged, Logged.withoutTraces_bind,
    Logged.withoutTraces_reportIf _ fun _ => level_of_mem_insertionEvents]
  rfl

/-- Insertions do not change whether a set is traced. -/
theorem traced_insertAll (set : IntervalSet family) (regions : List (Region family)) :
    (set.insertAll regions).traced = set.traced := by
  induction regions generalizing set with
  | nil => rfl
  | cons region regions ih => exact ih (set.insert region)

end IntervalSet

/-- A table of a set that is not traced is made as that of a traced set, without the traces. -/
theorem LookupTable.ofSetLogged_untraced (set : IntervalSet family) (defaultAction : Action) :
    ofSetLogged set.untraced defaultAction = (ofSetLogged set defaultAction).withoutTraces := by
  rw [ofSetLogged, ofSetLogged, Logged.withoutTraces_bind,
    Logged.withoutTraces_reportIf _ fun _ => IntervalSet.level_of_mem_insertionEvents]
  rfl

namespace Builder

/-- A builder that has decided the same and does not trace. -/
def untraced (builder : Builder) : Builder :=
  { builder with
    v4 := builder.v4.untraced
    v6 := builder.v6.untraced
    settings := { builder.settings with traceInserts := false } }

/-- Without traces a builder has decided the same for IPv4. -/
@[simp] theorem v4_untraced (builder : Builder) :
    builder.untraced.v4 = builder.v4.untraced := rfl

/-- Without traces a builder has decided the same for IPv6. -/
@[simp] theorem v6_untraced (builder : Builder) :
    builder.untraced.v6 = builder.v6.untraced := rfl

/-- A builder that does not trace adds a rule as one that does, without the traces. -/
theorem add_untraced (builder : Builder) (rule : Rule) :
    builder.untraced.add rule = untraced <$> (builder.add rule).withoutTraces := by
  have hsilent : Logged.reportIf builder.untraced.settings.traceInserts
      [.adding builder.untraced.ruleCount rule] = pure () := rfl
  rw [add, add, hsilent, Logged.withoutTraces_bind,
    Logged.withoutTraces_reportIf _ fun _ => Event.level_of_mem_adding]
  cases rule.region with
  | v4 region =>
    simp only [v4_untraced, IntervalSet.insertLogged_untraced, Logged.withoutTraces_bind,
      pure_bind, bind_map_left, map_bind]
    rfl
  | v6 region =>
    simp only [v6_untraced, IntervalSet.insertLogged_untraced, Logged.withoutTraces_bind,
      pure_bind, bind_map_left, map_bind]
    rfl

/-- A builder that does not trace adds rules as one that does, without the traces. -/
theorem addAll_untraced (builder : Builder) (rules : List Rule) :
    builder.untraced.addAll rules = untraced <$> (builder.addAll rules).withoutTraces := by
  induction rules generalizing builder with
  | nil => rfl
  | cons rule rules ih =>
    calc builder.untraced.addAll (rule :: rules)
        = builder.untraced.add rule >>= fun next => next.addAll rules := rfl
      _ = (builder.add rule).withoutTraces >>= fun next => next.untraced.addAll rules := by
          rw [add_untraced, bind_map_left]
      _ = (builder.add rule).withoutTraces >>= fun next =>
            untraced <$> (next.addAll rules).withoutTraces := by
          simp only [ih]
      _ = untraced <$> (builder.addAll (rule :: rules)).withoutTraces := by
          rw [addAll, Logged.withoutTraces_bind, map_bind]

/-- A builder that does not trace compiles as one that does, without the traces. -/
theorem build_untraced (builder : Builder) :
    builder.untraced.build = builder.build.withoutTraces := by
  simp only [build, v4_untraced, v6_untraced, IntervalSet.insertLogged_untraced,
    LookupTable.ofSetLogged_untraced, Logged.withoutTraces_bind, bind_map_left]
  rfl

end Builder

/-- Compiling without tracing is compiling with any settings, with the traces deleted. -/
theorem Acl.compile_untraced (rules : List Rule) (settings : Settings) :
    compile rules { settings with traceInserts := false } =
      (compile rules settings).withoutTraces := by
  have hnew : Builder.new { settings with traceInserts := false } =
      (Builder.new settings).untraced := rfl
  rw [compile, hnew, Builder.addAll_untraced, bind_map_left, compile, Logged.withoutTraces_bind]
  simp only [Builder.build_untraced]

/-! ## Traces -/

/-- A builder whose sets are traced has a trace to report when it compiles. -/
theorem Builder.insertionStarted_mem_events_build {builder : Builder}
    (htraced : builder.v4.traced = true) :
    .insertionStarted builder.v4.entries (.full builder.settings.defaultAction) ∈
      builder.build.events := by
  rw [build, Logged.events_bind, IntervalSet.insertLogged, Logged.events_bind,
    Logged.events_reportIf, htraced]
  simp [IntervalSet.insertionEvents]

/-- Compiling reports a trace exactly when tracing is on. -/
theorem Acl.exists_trace_iff (rules : List Rule) (settings : Settings) :
    (∃ event ∈ (compile rules settings).events, event.level = .trace) ↔
      settings.traceInserts = true := by
  obtain ⟨defaultAction, traceInserts⟩ := settings
  cases traceInserts with
  | false =>
    have hrun : compile rules ⟨defaultAction, false⟩ =
        (compile rules ⟨defaultAction, false⟩).withoutTraces :=
      compile_untraced rules ⟨defaultAction, false⟩
    rw [hrun]
    simp only [Bool.false_eq_true, iff_false, not_exists, not_and]
    exact fun event hevent => Logged.level_of_mem_withoutTraces hevent
  | true =>
    have htraced : ((Builder.new ⟨defaultAction, true⟩).addAll rules).value.v4.traced = true := by
      change (((Builder.new ⟨defaultAction, true⟩).addAll rules).value.set .v4).traced = true
      rw [Builder.set_addAll, IntervalSet.traced_insertAll]
      rfl
    have hmem := Builder.insertionStarted_mem_events_build htraced
    rw [compile, Logged.events_bind]
    exact iff_of_true ⟨_, List.mem_append_right _ hmem, rfl⟩ rfl

/-! ## Calls of a builder -/

namespace Builder

/-- A call by which a builder takes in rules. -/
inductive Call where
  /-- A rule is added. -/
  | add (rule : Rule)
  /-- Rules are added in order. -/
  | addAll (rules : List Rule)

/-- The rules that a call adds. -/
def Call.rules : Call → List Rule
  | add rule => [rule]
  | addAll rules => rules

/-- Performs a call. -/
def perform (builder : Builder) : Call → Logged Builder
  | .add rule => builder.add rule
  | .addAll rules => builder.addAll rules

/-- Performs calls one after the other. -/
def performAll (builder : Builder) (calls : List Call) : Logged Builder :=
  calls.foldlM perform builder

/-- A call adds its rules one after the other. -/
theorem perform_eq_foldlM (builder : Builder) (call : Call) :
    builder.perform call = call.rules.foldlM Builder.add builder := by
  cases call with
  | add rule => exact (bind_pure (builder.add rule)).symm
  | addAll rules => exact addAll_eq_foldlM builder rules

/-- Calls add all their rules in order, however these are shared out between them. -/
theorem performAll_eq_addAll (builder : Builder) (calls : List Call) :
    builder.performAll calls = builder.addAll (calls.flatMap Call.rules) := by
  rw [addAll_eq_foldlM]
  induction calls generalizing builder with
  | nil => rfl
  | cons call calls ih =>
    rw [performAll, List.foldlM_cons, List.flatMap_cons, List.foldlM_append, perform_eq_foldlM]
    exact congrArg (call.rules.foldlM Builder.add builder >>= ·) (funext ih)

end Builder

/-! ## Ways to compile a rule list -/

namespace RuleList

variable {list : RuleList} {traced traced' : Bool} {run run' : Logged Acl}

/-- The runs that compile a rule list, with tracing on or off. -/
inductive IsCompilation (list : RuleList) : Bool → Logged Acl → Prop where
  /-- The list is compiled as it is. -/
  | compile : IsCompilation list false list.compile
  /-- The list is compiled with settings, whatever these say about the default action. -/
  | compileWith (settings : Settings) :
      IsCompilation list settings.traceInserts (list.compileWith settings)
  /-- The rules of the list are compiled with its default action. -/
  | rules : IsCompilation list false
      (Acl.compile list.rules { defaultAction := list.defaultAction })
  /-- The rules of the list are compiled with its settings, in which tracing is turned on or off. -/
  | settings (traced : Bool) : IsCompilation list traced
      (Acl.compile list.rules { list.settings with traceInserts := traced })
  /-- A builder with the default action of the list takes in its rules in any calls. -/
  | builder (traced : Bool) (calls : List Builder.Call)
      (hrules : calls.flatMap Builder.Call.rules = list.rules) :
      IsCompilation list traced
        ((Builder.new { defaultAction := list.defaultAction, traceInserts := traced }).performAll
          calls >>= Builder.build)
  /-- A machine compiles the rules, and looks before each report whether tracing is on. -/
  | stepwise (traced : Bool) : IsCompilation list traced
      (Acl.compileStepwise list.rules
        { defaultAction := list.defaultAction, traceInserts := traced })

/-- Every way to compile a rule list is to compile its rules with its default action. -/
theorem IsCompilation.eq_compile (h : IsCompilation list traced run) :
    run = Acl.compile list.rules { defaultAction := list.defaultAction, traceInserts := traced } := by
  cases h with
  | compile => rfl
  | compileWith settings => rfl
  | rules => rfl
  | settings traced => rfl
  | builder traced calls hrules =>
    rw [Builder.performAll_eq_addAll, hrules]
    rfl
  | stepwise traced => exact Acl.compileStepwise_eq _ _

/-- A run that compiles a rule list without tracing is any other run that compiles it, with the
traces deleted. -/
theorem IsCompilation.withoutTraces_eq (h : IsCompilation list traced run)
    (h' : IsCompilation list false run') : run.withoutTraces = run' := by
  rw [h.eq_compile, h'.eq_compile, ← Acl.compile_untraced]

/-- In whichever of the ways a rule list is compiled, and with tracing on or off, the access list is
the same one, with the default action of the list. There are traces in the log exactly if tracing
is on, and if they are deleted, what is left is the log of every run without tracing. -/
theorem IsCompilation.agree (h : IsCompilation list traced run)
    (h' : IsCompilation list traced' run') :
    run.value = run'.value ∧ run.value.defaultAction = list.defaultAction ∧
      ((∃ event ∈ run.events, event.level = .trace) ↔ traced = true) ∧
      (traced' = false → run.events.filter (·.level ≠ .trace) = run'.events) := by
  have hplain : IsCompilation list false list.compile := .compile
  refine ⟨?_, ?_, ?_, ?_⟩
  · calc run.value = run.withoutTraces.value := rfl
      _ = list.compile.value := by rw [h.withoutTraces_eq hplain]
      _ = run'.withoutTraces.value := by rw [h'.withoutTraces_eq hplain]
      _ = run'.value := rfl
  · rw [h.eq_compile, Acl.defaultAction_compile]
  · rw [h.eq_compile]
    exact Acl.exists_trace_iff _ _
  · rintro rfl
    exact congrArg Logged.events (h.withoutTraces_eq h')

/-- A rule for each family and one that is hidden by the first. A builder with tracing takes them in
by three calls, one of which adds none, and the list is compiled with settings that have another
default action. -/
theorem IsCompilation.agree_of_three_calls :
    let host : Rule := ⟨.v4 ⟨.ofNat 0x0A000001, 32, by decide⟩, .deny⟩
    let block : Rule := ⟨.v6 ⟨.first, 16, by decide⟩, .allow⟩
    let hidden : Rule := ⟨.v4 ⟨.ofNat 0x0A000001, 32, by decide⟩, .allow⟩
    let list : RuleList := ⟨[host, block, hidden], .deny⟩
    let run := (Builder.new { defaultAction := .deny, traceInserts := true }).performAll
      [.add host, .addAll [], .addAll [block, hidden]] >>= Builder.build
    let run' := list.compileWith { defaultAction := .allow }
    IsCompilation list true run ∧ IsCompilation list false run' ∧ run.value = run'.value ∧
      (∃ event ∈ run.events, event.level = .trace) ∧
      run.events.filter (·.level ≠ .trace) = run'.events := by
  intro host block hidden list run run'
  have h : IsCompilation list true run := .builder true _ rfl
  have h' : IsCompilation list false run' := .compileWith { defaultAction := .allow }
  obtain ⟨hvalue, _, htrace, hlog⟩ := h.agree h'
  exact ⟨h, h', hvalue, htrace.mpr rfl, hlog rfl⟩

end RuleList
end AccessList
