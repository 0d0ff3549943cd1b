import AccessList.Proofs.GuardedInsertion
import AccessList.Proofs.TableRegions

/-!
# Guarded tables

A table is made of regions that must follow each other, take turns and reach the last address. To
list its regions means to go back from each boundary to the address before it, and to look up an
address means to have a boundary at or below it. With guards for all of this, no run on what was
inserted into an empty set meets a fault.
-/

namespace AccessList.Guarded

variable {family : Family}

/-! ## The steps of a machine -/

/-- Checks that regions follow each other without a gap and with a change of action, and that the
last one ends at the last address. -/
def checkTurns : List (Region family) → Except (Fault family) Unit
  | [] => .ok ()
  | [r] => if r.range.hi = .last then .ok () else .error (.endsEarly r)
  | r :: s :: later =>
    if r.range.hi.next? ≠ some s.range.lo then .error (.gap r s)
    else if r.action = s.action then .error (.sameAction r s)
    else checkTurns (s :: later)

/-- Makes the table of a set, once the default action decides the rest and the regions are
checked. -/
def ofSet (set : IntervalSet family) (defaultAction : Action) :
    Except (Fault family) (LookupTable family) := do
  let filled ← insert set (.full defaultAction)
  checkTurns filled.entries
  .ok
    { starts := (filled.entries.map (·.range.lo)).toArray
      denyOnEven := (filled.entries.head?.elim defaultAction (·.action)).isDeny
      defaultAction }

/-- The regions of a table that start at the given addresses, the first of which is at the given
place. -/
def regionsFrom (table : LookupTable family) :
    Nat → List (Address family) → Except (Fault family) (List (Region family))
  | _, [] => .ok []
  | place, start :: later => do
    let stop ← later.head?.elim (.ok .last) prev
    let range ← range start stop
    let regions ← regionsFrom table (place + 1) later
    .ok (⟨range, table.actionAt place⟩ :: regions)

/-- All regions of a table, in order. -/
def regions (table : LookupTable family) : Except (Fault family) (List (Region family)) :=
  regionsFrom table 0 table.boundaries

/-- The action for an address, which must not be below all boundaries. -/
def lookup (table : LookupTable family) (a : Address family) : Except (Fault family) Action :=
  match table.count a with
  | 0 => .error (.belowBoundaries a)
  | place + 1 => .ok (table.actionAt place)

/-- Regions in normal form that leave no gap pass the check. -/
theorem checkTurns_eq_ok {start : Option (Address family)} {regions : List (Region family)}
    (hsep : regions.IsChain Region.Separate)
    (hcovers : IntervalSet.covers start regions = true) : checkTurns regions = .ok () := by
  induction regions generalizing start with
  | nil => rfl
  | cons r regions ih =>
    obtain ⟨_, hlater⟩ := IntervalSet.covers_cons_iff.mp hcovers
    cases regions with
    | nil =>
      have hlast : r.range.hi = .last :=
        Address.next?_eq_none_iff.mp (IntervalSet.covers_nil_iff.mp hlater)
      rw [checkTurns, if_pos hlast]
    | cons s regions =>
      obtain ⟨hturn, hsep⟩ := List.isChain_cons_cons.mp hsep
      obtain ⟨hnext, _⟩ := IntervalSet.covers_cons_iff.mp hlater
      rw [checkTurns, if_neg (not_not.mpr hnext), if_neg (hturn hnext)]
      exact ih hsep hlater

variable {set : IntervalSet family}

/-- With the default action for the rest, the regions that a table is made of pass the check. -/
theorem ofSet_eq_ok (hord : set.entries.Pairwise Region.Before) (defaultAction : Action) :
    ofSet set defaultAction = .ok (.ofSet set defaultAction) := by
  have hcheck : checkTurns (set.insert (.full defaultAction)).entries = .ok () :=
    checkTurns_eq_ok (LookupTable.isNormal_filled hord defaultAction).separate
      (LookupTable.covers_filled hord defaultAction)
  rw [ofSet, insert_eq_ok]
  change (checkTurns (set.insert (.full defaultAction)).entries >>= _) = _
  rw [hcheck]
  rfl

/-- Where regions leave no gap, each one is listed up to the address before the next one, and the
last one up to the last address. -/
theorem regionsFrom_eq_ok {table : LookupTable family} {start : Option (Address family)}
    {place : Nat} {regions : List (Region family)}
    (hcovers : IntervalSet.covers start regions = true)
    (haction : ∀ i (hi : i < regions.length), table.actionAt (place + i) = regions[i].action) :
    regionsFrom table place (regions.map (·.range.lo)) = .ok regions := by
  induction regions generalizing start place with
  | nil => rfl
  | cons r regions ih =>
    obtain ⟨_, hlater⟩ := IntervalSet.covers_cons_iff.mp hcovers
    have hfirst : table.actionAt place = r.action := haction 0 (Nat.zero_lt_succ _)
    have hrest : regionsFrom table (place + 1) (regions.map (·.range.lo)) = .ok regions := by
      refine ih hlater fun i hi => ?_
      rw [Nat.add_assoc, Nat.add_comm 1 i]
      exact haction (i + 1) (Nat.succ_lt_succ hi)
    have hstop : (regions.map (·.range.lo)).head?.elim (.ok .last) prev = .ok r.range.hi := by
      cases regions with
      | nil =>
        have hlast : r.range.hi = .last :=
          Address.next?_eq_none_iff.mp (IntervalSet.covers_nil_iff.mp hlater)
        rw [hlast]
        rfl
      | cons s regions =>
        obtain ⟨hnext, _⟩ := IntervalSet.covers_cons_iff.mp hlater
        have hstep := Address.next?_eq_some_iff.mp hnext
        exact prev_eq_ok (Address.prev?_eq_some_iff.mpr hstep.symm)
    have hrange : range r.range.lo r.range.hi = .ok r.range := range_eq_ok rfl rfl
    rw [List.map_cons, regionsFrom, hstop]
    change (range r.range.lo r.range.hi >>= _) = _
    rw [hrange]
    change (regionsFrom table (place + 1) (regions.map (·.range.lo)) >>= _) = _
    rw [hrest, hfirst]
    rfl

/-- Listing the regions of a table turn by turn meets no fault and gives the regions. -/
theorem regions_eq_ok (hord : set.entries.Pairwise Region.Before) (defaultAction : Action) :
    regions (.ofSet set defaultAction) = .ok (LookupTable.ofSet set defaultAction).regions := by
  rw [LookupTable.regions_ofSet hord, regions, LookupTable.boundaries_ofSet]
  refine regionsFrom_eq_ok (LookupTable.covers_filled hord defaultAction) fun i hi => ?_
  rw [Nat.zero_add]
  exact LookupTable.actionAt_ofSet hord hi

/-- The first boundary of a table is the first address. -/
theorem head?_boundaries_ofSet (hord : set.entries.Pairwise Region.Before)
    (defaultAction : Action) :
    (LookupTable.ofSet set defaultAction).boundaries.head? = some .first := by
  have hcovers := LookupTable.covers_filled hord defaultAction
  rw [LookupTable.boundaries_ofSet]
  cases hfilled : LookupTable.filled set defaultAction with
  | nil => simp [hfilled, IntervalSet.covers] at hcovers
  | cons r regions =>
    rw [hfilled] at hcovers
    exact (IntervalSet.covers_cons_iff.mp hcovers).1.symm

/-- No address is below the first boundary. -/
theorem lookup_eq_ok (hord : set.entries.Pairwise Region.Before) (defaultAction : Action)
    (a : Address family) :
    lookup (.ofSet set defaultAction) a = .ok ((LookupTable.ofSet set defaultAction).lookup a) := by
  have hcount := LookupTable.count_eq_countP
    (LookupTable.pairwise_boundaries_ofSet hord defaultAction) a
  have hfirst := List.mem_of_mem_head? (head?_boundaries_ofSet hord defaultAction)
  have hpos : 0 < (LookupTable.ofSet set defaultAction).count a := by
    rw [hcount, List.countP_pos_iff]
    exact ⟨.first, hfirst, decide_eq_true a.first_le⟩
  unfold lookup LookupTable.lookup
  cases hplace : (LookupTable.ofSet set defaultAction).count a with
  | zero => omega
  | succ place => rfl

/-- Whatever is inserted into an empty set, and whatever the default action is, no step meets a
fault: not in the insertions, not where the table is made, not where its regions are listed, and
not where an address is looked up. What comes out is what the library gives. -/
theorem no_fault (traced : Bool) (inserted : List (Region family)) (defaultAction : Action) :
    let set := IntervalSet.insertAll { traced } inserted
    let table := LookupTable.ofSet set defaultAction
    insertAll { traced } inserted = .ok set ∧
      ofSet set defaultAction = .ok table ∧
      regions table = .ok table.regions ∧
      table.boundaries.head? = some .first ∧
      ∀ a, lookup table a = .ok (table.lookup a) := by
  intro set table
  have hord : set.entries.Pairwise Region.Before :=
    (IntervalSet.isNormal_insertAll (IntervalSet.isNormal_empty traced) inserted).ordered
  exact ⟨insertAll_eq_ok _ inserted, ofSet_eq_ok hord defaultAction,
    regions_eq_ok hord defaultAction, head?_boundaries_ofSet hord defaultAction,
    lookup_eq_ok hord defaultAction⟩

end AccessList.Guarded
