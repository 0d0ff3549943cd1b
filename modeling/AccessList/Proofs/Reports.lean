import AccessList.Proofs.Compilation

/-!
# What compiling reports

The details of insertions are traces, and they are the only traces. All else that compiling reports
is how much was compiled, once, at its end.
-/

namespace AccessList

namespace Logged

variable {α β : Type}

/-- The events that are no traces, in order. -/
def notices (x : Logged α) : List Event := x.events.filter (·.level ≠ .trace)

/-- A plain result comes without notices. -/
theorem notices_pure (a : α) : (pure a : Logged α).notices = [] := rfl

/-- The notices of what comes later stand behind those of what came before. -/
theorem notices_bind (x : Logged α) (f : α → Logged β) :
    (x >>= f).notices = x.notices ++ (f x.value).notices :=
  List.filter_append x.events (f x.value).events

/-- A report of traces gives no notice, whether it is made or not. -/
theorem notices_reportIf (condition : Bool) {events : List Event}
    (h : ∀ event ∈ events, event.level = .trace) : (reportIf condition events).notices = [] := by
  rw [notices, events_reportIf]
  refine List.filter_eq_nil_iff.mpr fun event hevent => ?_
  have hmem : event ∈ events := by
    split at hevent
    · exact hevent
    · exact absurd hevent List.not_mem_nil
  simp [h event hmem]

end Logged

open Logged (notices notices_bind notices_pure notices_reportIf)

variable {family : Family}

/-- That a rule is about to be added is a trace. -/
theorem Event.level_of_mem_adding {number : Nat} {rule : Rule} {event : Event}
    (h : event ∈ [adding number rule]) : event.level = .trace := by
  obtain rfl := List.mem_singleton.mp h
  rfl

namespace IntervalSet

/-- All that an insertion reports are traces. -/
theorem level_of_mem_insertionEvents {set : IntervalSet family} {incoming : Region family}
    {event : Event} (h : event ∈ set.insertionEvents incoming) : event.level = .trace := by
  simp only [insertionEvents, List.mem_append, List.mem_singleton, List.mem_map] at h
  rcases h with (rfl | ⟨step, _, rfl⟩) | rfl <;> rfl

/-- After an insertion there are the notices of what is done with the set. -/
theorem notices_insertLogged_bind {α : Type} (set : IntervalSet family) (incoming : Region family)
    (f : IntervalSet family → Logged α) :
    (set.insertLogged incoming >>= f).notices = (f (set.insert incoming)).notices := by
  rw [notices_bind, insertLogged, notices_bind, notices_pure,
    notices_reportIf _ fun _ => level_of_mem_insertionEvents]
  rfl

end IntervalSet

/-- Making a table gives no notice. -/
theorem LookupTable.notices_ofSetLogged (set : IntervalSet family) (defaultAction : Action) :
    (ofSetLogged set defaultAction).notices = [] := by
  rw [ofSetLogged, notices_bind, notices_pure,
    notices_reportIf _ fun _ => IntervalSet.level_of_mem_insertionEvents]
  rfl

namespace Builder

/-- Adding a rule gives no notice. -/
theorem notices_add (builder : Builder) (rule : Rule) : (builder.add rule).notices = [] := by
  rw [add, notices_bind, notices_reportIf _ fun _ => Event.level_of_mem_adding, List.nil_append]
  cases rule.region with
  | v4 region => exact IntervalSet.notices_insertLogged_bind builder.v4 region _
  | v6 region => exact IntervalSet.notices_insertLogged_bind builder.v6 region _

/-- Nor does adding rules in a row. -/
theorem notices_addAll (builder : Builder) (rules : List Rule) :
    (builder.addAll rules).notices = [] := by
  induction rules generalizing builder with
  | nil => rfl
  | cons rule rules ih => rw [addAll, notices_bind, notices_add, ih, List.nil_append]

/-- Building gives notice of what was compiled. -/
theorem notices_build (builder : Builder) :
    builder.build.notices = [.compiled builder.ruleCount builder.build.value.v4.size
      builder.build.value.v6.size builder.settings.defaultAction] := by
  rw [build, IntervalSet.notices_insertLogged_bind, IntervalSet.notices_insertLogged_bind]
  simp only [notices_bind, LookupTable.notices_ofSetLogged, notices_pure]
  rfl

/-- A rule that is added is counted. -/
theorem ruleCount_add (builder : Builder) (rule : Rule) :
    (builder.add rule).value.ruleCount = builder.ruleCount + 1 := by
  rw [add, Logged.value_bind]
  cases rule.region <;> rfl

/-- Every rule is counted. -/
theorem ruleCount_addAll (builder : Builder) (rules : List Rule) :
    (builder.addAll rules).value.ruleCount = builder.ruleCount + rules.length := by
  induction rules generalizing builder with
  | nil => rfl
  | cons rule rules ih =>
    rw [addAll, Logged.value_bind, ih, ruleCount_add, List.length_cons, Nat.add_assoc,
      Nat.add_comm 1]

end Builder

/-- Compiling gives one notice, with the number of rules and of regions in each family. -/
theorem Acl.notices_compile (rules : List Rule) (settings : Settings) :
    (compile rules settings).notices =
      [.compiled rules.length (compile rules settings).value.v4.size
        (compile rules settings).value.v6.size settings.defaultAction] := by
  rw [compile, notices_bind, Builder.notices_addAll, Builder.notices_build,
    Builder.ruleCount_addAll, Builder.settings_addAll, List.nil_append, Logged.value_bind,
    Builder.new, Nat.zero_add]

end AccessList
