import AccessList.Region

/-!
# Sweeping a range over entries

To lay a range under existing entries, a sweep walks over the entries in order and holds what
remains of the range above those passed so far. An entry is kept as it is; before it, the part
of the remainder below the entry becomes a gap that takes the new action. The sweep ends when
nothing remains of the range or no entry is left.
-/

namespace AccessList

variable {family : Family}

/-- What a sweep did at an entry, with what then remained of the range. -/
inductive Step (family : Family) where
  /-- An entry stays. -/
  | kept (entry : Region family) (rest : Option (Range family))
  /-- A part of the range that no entry holds is filled in. -/
  | filled (gap : Region family) (rest : Option (Range family))

/-- The region that a step contributes to the outcome. -/
def Step.piece : Step family → Region family
  | .kept entry _ => entry
  | .filled gap _ => gap

/-- The course of a sweep. -/
structure Sweep (family : Family) where
  /-- The steps taken, in order. -/
  steps : List (Step family)
  /-- What remained of the range after the last entry. -/
  leftover : Option (Range family)
  /-- The entries not reached, because nothing remained of the range. -/
  untouched : List (Region family)

namespace Sweep

/-- The course with a step before it. -/
def after (step : Step family) (course : Sweep family) : Sweep family :=
  { course with steps := step :: course.steps }

/-- Sweeps what remains of a range over entries. Where there is a gap before an entry, the entry
is reached in the same turn, unless nothing remains after the gap. -/
def run (action : Action) : List (Region family) → Option (Range family) → Sweep family
  | entries, none => ⟨[], none, entries⟩
  | [], some rest => ⟨[], some rest, []⟩
  | entry :: later, some rest =>
    let beyond := rest.above? entry.range.hi
    let keep := (run action later beyond).after (.kept entry beyond)
    match rest.below? entry.range.lo with
    | none => keep
    | some gap =>
      match rest.above? gap.hi with
      | none => ⟨[.filled ⟨gap, action⟩ none], none, entry :: later⟩
      | some remaining => keep.after (.filled ⟨gap, action⟩ (some remaining))

/-- All regions that a sweep leaves behind, in order. -/
def pieces (action : Action) (course : Sweep family) : List (Region family) :=
  course.steps.map Step.piece ++ course.leftover.toList.map (⟨·, action⟩) ++ course.untouched

end Sweep
end AccessList
