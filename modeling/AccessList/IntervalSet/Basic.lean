import AccessList.IntervalSet.Sweep

/-!
# Interval sets

The regions decided so far, in order of address. Inserting a region decides the addresses that
are still undecided and changes nothing else, so inserting regions one after another lets the
first region that holds an address decide it.
-/

namespace AccessList

/-- Decided regions of one family. -/
structure IntervalSet (family : Family) where
  /-- The regions, in order of address. -/
  entries : List (Region family) := []
  /-- Whether insertions are recorded step by step. -/
  traced : Bool := false
  deriving DecidableEq

namespace IntervalSet

variable {family : Family}

/-- The set in which nothing is decided. -/
def empty : IntervalSet family := {}

/-- The number of entries. -/
def size (set : IntervalSet family) : Nat := set.entries.length

/-- Whether nothing is decided. -/
def isEmpty (set : IntervalSet family) : Bool := set.entries.isEmpty

/-- The action for an address, if it is decided. -/
def find? (set : IntervalSet family) (a : Address family) : Option Action :=
  Region.find? set.entries a

/-- The sweep by which a region is inserted. -/
def sweep (set : IntervalSet family) (incoming : Region family) : Sweep family :=
  .run incoming.action set.entries (some incoming.range)

/-- Decides the undecided addresses of a region by its action. -/
def insert (set : IntervalSet family) (incoming : Region family) : IntervalSet family :=
  { set with entries := Region.coalesce ((set.sweep incoming).pieces incoming.action) }

/-- Inserts regions in order. -/
def insertAll (set : IntervalSet family) (regions : List (Region family)) : IntervalSet family :=
  regions.foldl insert set

/-- Whether regions follow each other without a gap, from a given address to the last one. After
the last address nothing is left to cover. -/
def covers : Option (Address family) → List (Region family) → Bool
  | start, [] => start = none
  | start, entry :: later => start = some entry.range.lo && covers entry.range.hi.next? later

/-- Whether the entries cover all addresses without a gap. -/
def coversAll (set : IntervalSet family) : Bool := covers (some .first) set.entries

end IntervalSet
end AccessList
