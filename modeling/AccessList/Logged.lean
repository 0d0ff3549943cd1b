import AccessList.Event
import AccessList.LookupTable

/-!
# Reporting

A computation that reports is a value together with the events on the way to it. The value never
depends on the events, and the events of two computations in a row are those of the first, then
those of the second.
-/

namespace AccessList

/-- A value, and the events on the way to it. -/
structure Logged (α : Type) where
  /-- The value. -/
  value : α
  /-- The events, in order. -/
  events : List Event := []

namespace Logged

/-- Reports one event. -/
def report (event : Event) : Logged Unit := ⟨(), [event]⟩

/-- Reports events if a condition holds; otherwise they are not even computed. -/
@[macro_inline] def reportIf (condition : Bool) (events : List Event) : Logged Unit :=
  ⟨(), if condition then events else []⟩

instance : Monad Logged where
  pure value := ⟨value, []⟩
  bind first next :=
    let second := next first.value
    ⟨second.value, first.events ++ second.events⟩

variable {α β : Type}

/-- A plain result is the value. -/
@[simp] theorem value_pure (a : α) : (pure a : Logged α).value = a := rfl

/-- A plain result comes without events. -/
@[simp] theorem events_pure (a : α) : (pure a : Logged α).events = [] := rfl

/-- Reporting an event gives that event. -/
@[simp] theorem events_report (event : Event) : (report event).events = [event] := rfl

/-- Events are reported if the condition holds, and none otherwise. -/
@[simp] theorem events_reportIf (condition : Bool) (events : List Event) :
    (reportIf condition events).events = if condition then events else [] := rfl

/-- What comes later starts from the value of what came before. -/
@[simp] theorem value_bind (x : Logged α) (f : α → Logged β) :
    (x >>= f).value = (f x.value).value := rfl

/-- The events of what comes later stand behind those of what came before. -/
@[simp] theorem events_bind (x : Logged α) (f : α → Logged β) :
    (x >>= f).events = x.events ++ (f x.value).events := rfl

end Logged

namespace IntervalSet

variable {family : Family}

/-- The events of an insertion. -/
def insertionEvents (set : IntervalSet family) (incoming : Region family) : List Event :=
  [.insertionStarted set.entries incoming] ++ (set.sweep incoming).steps.map .stepped ++
    [.insertionDone (set.insert incoming).entries]

/-- Inserts a region, and reports it if the set is traced. -/
def insertLogged (set : IntervalSet family) (incoming : Region family) :
    Logged (IntervalSet family) := do
  Logged.reportIf set.traced (set.insertionEvents incoming)
  return set.insert incoming

end IntervalSet

/-- The table of a set, with a report of how the default action decides the rest if the set is
traced. -/
def LookupTable.ofSetLogged {family : Family} (set : IntervalSet family) (defaultAction : Action) :
    Logged (LookupTable family) := do
  Logged.reportIf set.traced (set.insertionEvents (.full defaultAction))
  return .ofSet set defaultAction

end AccessList
