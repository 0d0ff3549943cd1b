import AccessList.IntervalSet.Basic
import AccessList.Proofs.Underlay

/-!
# Insertions

An insertion decides what was undecided in a region and changes nothing else, and it brings the
entries to normal form. So a run of insertions answers like the list of regions read from the
top, and its entries are in order, disjoint and joined.
-/

namespace AccessList.IntervalSet

open Region (Before Separate IsNormal)

variable {family : Family}

/-- The sets that insertions lead to from the one in which nothing is decided. Whether insertions
are recorded can be changed at any time. -/
inductive Reachable : IntervalSet family → Prop where
  | empty : Reachable .empty
  | insert {set : IntervalSet family} (incoming : Region family) :
      Reachable set → Reachable (set.insert incoming)
  | record {set : IntervalSet family} (traced : Bool) :
      Reachable set → Reachable { set with traced }

/-! ## One insertion -/

/-- An insertion brings ordered entries to normal form. -/
theorem isNormal_insert {set : IntervalSet family} (hord : set.entries.Pairwise Before)
    (incoming : Region family) : IsNormal (set.insert incoming).entries :=
  Region.isNormal_coalesce (Sweep.pairwise_before_pieces_run hord _)

/-- An insertion decides the undecided addresses of a region and no others. -/
theorem find?_insert {set : IntervalSet family} (hord : set.entries.Pairwise Before)
    (incoming : Region family) (a : Address family) :
    (set.insert incoming).find? a =
      (set.find? a).or (if a ∈ incoming.range then some incoming.action else none) := by
  rw [IntervalSet.find?, insert, Region.find?_coalesce, sweep, Sweep.find?_pieces_run hord,
    Region.ofRange?_some, Region.find?_cons, Region.find?_nil]
  rfl

/-- Outside the region an insertion changes no answer. -/
theorem find?_insert_of_notMem {set : IntervalSet family} (hord : set.entries.Pairwise Before)
    {incoming : Region family} {a : Address family} (ha : a ∉ incoming.range) :
    (set.insert incoming).find? a = set.find? a := by
  rw [find?_insert hord, if_neg ha, Option.or_none]

/-- The default action decides whatever is left undecided. -/
theorem find?_insert_full {set : IntervalSet family} (hord : set.entries.Pairwise Before)
    (defaultAction : Action) (a : Address family) :
    (set.insert (.full defaultAction)).find? a = some ((set.find? a).getD defaultAction) := by
  have hmem : a ∈ (Region.full defaultAction : Region family).range := Range.mem_full a
  rw [find?_insert hord, if_pos hmem]
  cases set.find? a <;> rfl

/-! ## A run of insertions -/

/-- Without regions nothing is inserted. -/
@[simp] theorem insertAll_nil (set : IntervalSet family) : set.insertAll [] = set := rfl

/-- The first region is inserted before the others. -/
@[simp] theorem insertAll_cons (set : IntervalSet family) (region : Region family)
    (regions : List (Region family)) :
    set.insertAll (region :: regions) = (set.insert region).insertAll regions := rfl

/-- Insertions keep entries in normal form. -/
theorem isNormal_insertAll {set : IntervalSet family} (hset : IsNormal set.entries)
    (regions : List (Region family)) : IsNormal (set.insertAll regions).entries := by
  induction regions generalizing set with
  | nil => exact hset
  | cons region regions ih => exact ih (isNormal_insert hset.ordered region)

/-- A set without entries is in normal form. -/
theorem isNormal_empty (traced : Bool) :
    IsNormal ({ traced } : IntervalSet family).entries := ⟨.nil, .nil⟩

/-- The entries of every set that insertions lead to are in normal form. -/
theorem Reachable.isNormal {set : IntervalSet family} (hset : set.Reachable) :
    IsNormal set.entries := by
  induction hset with
  | empty => exact isNormal_empty false
  | insert incoming _ ih => exact isNormal_insert ih.ordered incoming
  | record traced _ ih => exact ih

/-- What a run of insertions decides is decided by the first region that holds an address, unless
the address was decided before. -/
theorem find?_insertAll {set : IntervalSet family} (hord : set.entries.Pairwise Before)
    (regions : List (Region family)) (a : Address family) :
    (set.insertAll regions).find? a = (set.find? a).or (Region.find? regions a) := by
  induction regions generalizing set with
  | nil => simp
  | cons region regions ih =>
    rw [insertAll_cons, ih (isNormal_insert hord region).ordered, find?_insert hord,
      Region.find?_cons, Option.or_assoc]
    congr 1
    split <;> simp

/-- No run of insertions changes the answer for an address of an entry. -/
theorem find?_insertAll_of_mem {set : IntervalSet family} (hord : set.entries.Pairwise Before)
    {entry : Region family} (hentry : entry ∈ set.entries) {a : Address family}
    (ha : a ∈ entry.range) (regions : List (Region family)) :
    (set.insertAll regions).find? a = some entry.action := by
  rw [find?_insertAll hord, find?, Region.find?_eq_some_of_mem hord hentry ha, Option.some_or]

/-- After any run of insertions into an empty set, of any regions at all, the entries run from a
lowest to a highest address each, they are in order and disjoint, and those that touch differ in
action. -/
theorem entries_insertAll_ordered_and_joined (traced : Bool) (regions : List (Region family)) :
    let entries := (insertAll { traced } regions).entries
    (∀ entry ∈ entries, entry.range.lo ≤ entry.range.hi) ∧
      entries.IsChain (fun r s => r.range.hi < s.range.lo) ∧
      entries.IsChain (fun r s => r.range.hi.next? = some s.range.lo → r.action ≠ s.action) := by
  intro entries
  have hnormal : IsNormal entries := isNormal_insertAll (isNormal_empty traced) regions
  refine ⟨fun entry _ => entry.range.lo_le_hi, ?_, hnormal.separate⟩
  exact hnormal.ordered.isChain

end AccessList.IntervalSet
