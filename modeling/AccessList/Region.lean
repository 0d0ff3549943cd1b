import AccessList.Action
import AccessList.Range

/-!
# Regions

A region is a range together with the action for its addresses. Regions that touch and have the
same action say the same as one region; `coalesce` joins them all.
-/

namespace AccessList

/-- A range and the action for its addresses. -/
structure Region (family : Family) where
  /-- The addresses concerned. -/
  range : Range family
  /-- What is done with them. -/
  action : Action
  deriving DecidableEq

namespace Region

variable {family : Family}

/-- Regions with the same range and the same action are the same. -/
theorem ext {r s : Region family} (hrange : r.range = s.range) (haction : r.action = s.action) :
    r = s := by
  cases r
  cases s
  cases hrange
  cases haction
  rfl

/-- The region of all addresses. -/
def full (action : Action) : Region family := ⟨.full, action⟩

/-- The region with the opposite action. -/
def negate (r : Region family) : Region family := { r with action := r.action.negate }

/-- Two regions as one, if they have the same action and the second begins right after the
first. -/
def join? (r s : Region family) : Option (Region family) :=
  if r.action = s.action then (r.range.join? s.range).map (⟨·, r.action⟩) else none

/-- Puts a region in front of a list, joined with the first region there if possible. -/
def consJoined (r : Region family) : List (Region family) → List (Region family)
  | [] => [r]
  | s :: rest =>
    match r.join? s with
    | some joined => joined :: rest
    | none => r :: s :: rest

/-- Joins all regions that follow each other without a gap or a change of action. -/
def coalesce : List (Region family) → List (Region family)
  | [] => []
  | r :: rest => consJoined r (coalesce rest)

/-- The action of the first region that holds an address. -/
def find? (regions : List (Region family)) (a : Address family) : Option Action :=
  (regions.find? (a ∈ ·.range)).map (·.action)

/-- Without regions nothing is decided. -/
@[simp] theorem find?_nil (a : Address family) : find? [] a = none := rfl

/-- The first region decides the addresses that it holds, and the others decide the rest. -/
theorem find?_cons (r : Region family) (regions : List (Region family)) (a : Address family) :
    find? (r :: regions) a = if a ∈ r.range then some r.action else find? regions a := by
  unfold find?
  by_cases h : a ∈ r.range <;> simp [h]

/-- A region as text, with a mark in front of what is denied. -/
def text (r : Region family) : String :=
  if r.action.isDeny then "!" ++ r.range.text else r.range.text

/-- Regions as text, in order. -/
def listText (regions : List (Region family)) : String :=
  ", ".intercalate (regions.map text)

end Region
end AccessList
