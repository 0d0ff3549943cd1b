import AccessList.IntervalSet.Basic

/-!
# Lookup tables

Once all addresses are decided, neighbouring regions have opposite actions and no gap between
them. So the first addresses of the regions and the action of one region say everything: the
action at an address depends on whether the number of regions that start at or below it is even
or odd. That number is found by halving.
-/

namespace AccessList

/-- The boundaries between allowed and denied addresses of one family. -/
structure LookupTable (family : Family) where
  /-- The first addresses of the regions, in order. -/
  starts : Array (Address family)
  /-- Whether the regions at even places, counted from zero, are denied. -/
  denyOnEven : Bool
  /-- The action that fills what the rules leave undecided. -/
  defaultAction : Action
  deriving DecidableEq

namespace LookupTable

variable {family : Family}

/-- The table of a set in which the default action decides all the rest. -/
def ofSet (set : IntervalSet family) (defaultAction : Action) : LookupTable family :=
  let entries := (set.insert (.full defaultAction)).entries
  { starts := (entries.map (·.range.lo)).toArray
    denyOnEven := (entries.head?.elim defaultAction (·.action)).isDeny
    defaultAction }

/-- The number of regions. -/
def size (table : LookupTable family) : Nat := table.starts.size

/-- Whether there is no region. -/
def isEmpty (table : LookupTable family) : Bool := table.starts.isEmpty

/-- The first addresses of the regions, in order. -/
def boundaries (table : LookupTable family) : List (Address family) := table.starts.toList

/-- Narrows down how many of the addresses from place `low` to place `high` come at or below
`a`, by a look at the one in the middle. -/
def countFrom (starts : Array (Address family)) (a : Address family) (low high : Nat) : Nat :=
  if low < high then
    let middle := (low + high) / 2
    if starts[middle]?.all (· ≤ a) then countFrom starts a (middle + 1) high
    else countFrom starts a low middle
  else low
termination_by high - low

/-- How many regions start at or below an address. -/
def count (table : LookupTable family) (a : Address family) : Nat :=
  countFrom table.starts a 0 table.starts.size

/-- The action of the region at a place, counted from zero. -/
def actionAt (table : LookupTable family) (place : Nat) : Action :=
  if (place % 2 == 0) == table.denyOnEven then .deny else .allow

/-- The action for an address. -/
def lookup (table : LookupTable family) (a : Address family) : Action :=
  match table.count a with
  | 0 => table.defaultAction
  | place + 1 => table.actionAt place

/-- The range of the region at a place: up to where the next one starts, or to the last address.
-/
def rangeAt? (table : LookupTable family) (place : Nat) : Option (Range family) := do
  let start ← table.starts[place]?
  match table.starts[place + 1]? with
  | some next => (Range.since start).below? next
  | none => some (.since start)

/-- All regions, in order. -/
def regions (table : LookupTable family) : List (Region family) :=
  (List.range table.size).filterMap fun place =>
    (table.rangeAt? place).map (⟨·, table.actionAt place⟩)

end LookupTable
end AccessList
