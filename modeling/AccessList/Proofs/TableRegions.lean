import AccessList.Proofs.TableLookup

/-!
# The regions of a table

A table keeps neither where its regions end nor, but for the first one, what their actions are.
Both can be told: a region ends right before the next one starts, and the actions take turns. So
the regions of a table are the entries that it was made of.
-/

namespace AccessList

variable {family : Family}

/-! ## Neighbours -/

namespace IntervalSet

open Region (Separate)

/-- Where regions leave no gap, each one ends right before the next one starts, and the last one
ends at the last address. -/
theorem next?_getElem_of_covers {start : Option (Address family)}
    {regions : List (Region family)} (hcovers : covers start regions = true) {place : Nat}
    (hplace : place < regions.length) :
    regions[place].range.hi.next? = regions[place + 1]?.map (·.range.lo) := by
  induction regions generalizing start place with
  | nil => simp at hplace
  | cons r regions ih =>
    obtain ⟨_, hlater⟩ := covers_cons_iff.mp hcovers
    cases place with
    | zero =>
      cases regions with
      | nil => exact covers_nil_iff.mp hlater
      | cons s regions => simpa using (covers_cons_iff.mp hlater).1
    | succ place => simpa using ih hlater (Nat.lt_of_succ_lt_succ hplace)

/-- Where regions in normal form leave no gap, the first action and the place of a region tell its
action. -/
theorem action_getElem_eq_alternate {start : Option (Address family)}
    {regions : List (Region family)} (hsep : regions.IsChain Separate)
    (hcovers : covers start regions = true) {place : Nat} (hplace : place < regions.length)
    (other : Action) :
    regions[place].action = (regions.head?.elim other (·.action)).alternate place := by
  induction regions generalizing start place with
  | nil => simp at hplace
  | cons first later ih =>
    obtain ⟨_, hlater⟩ := covers_cons_iff.mp hcovers
    cases place with
    | zero => rfl
    | succ place =>
      cases later with
      | nil => simp at hplace
      | cons second later =>
        obtain ⟨hturn, hsep⟩ := List.isChain_cons_cons.mp hsep
        have haction : second.action = first.action.negate :=
          Action.eq_negate_of_ne (hturn (covers_cons_iff.mp hlater).1)
        have hplace := ih hsep hlater (Nat.lt_of_succ_lt_succ hplace)
        simp only [List.head?_cons, Option.elim_some, haction] at hplace
        rw [List.getElem_cons_succ, hplace, List.head?_cons, Option.elim_some,
          Action.alternate_succ]

end IntervalSet

namespace LookupTable

open Region (Before)

variable {set : IntervalSet family} {defaultAction : Action}

/-! ## Listing the regions -/

/-- The starts of a table are those of the entries that it was made of. -/
theorem getElem?_starts_ofSet (place : Nat) :
    (ofSet set defaultAction).starts[place]? =
      (filled set defaultAction)[place]?.map (·.range.lo) := by
  change ((filled set defaultAction).map (·.range.lo)).toArray[place]? = _
  rw [List.getElem?_toArray, List.getElem?_map]

/-- A table has a region for each entry that it was made of. -/
theorem size_ofSet : (ofSet set defaultAction).size = (filled set defaultAction).length := by
  change ((filled set defaultAction).map (·.range.lo)).toArray.size = _
  rw [List.size_toArray, List.length_map]

/-- The region at a place has the range of the entry there. -/
theorem rangeAt?_ofSet (hord : set.entries.Pairwise Before) {place : Nat}
    (hplace : place < (filled set defaultAction).length) :
    (ofSet set defaultAction).rangeAt? place = some (filled set defaultAction)[place].range := by
  have hnext := IntervalSet.next?_getElem_of_covers (covers_filled hord defaultAction) hplace
  have hle := Address.le_def.mp (filled set defaultAction)[place].range.lo_le_hi
  simp only [rangeAt?, getElem?_starts_ofSet, ← hnext, List.getElem?_eq_getElem hplace,
    Option.map_some, Option.bind_eq_bind, Option.bind_some]
  cases hnext : (filled set defaultAction)[place].range.hi.next? with
  | none =>
    have hlast := Address.next?_eq_none_iff.mp hnext
    exact congrArg some (Range.ext rfl hlast.symm)
  | some next =>
    have hstep := Address.next?_eq_some_iff.mp hnext
    have hlast := Address.le_def.mp next.le_last
    refine Range.below?_eq_some_iff.mpr ⟨?_, rfl, ?_⟩
    · rw [Address.lt_def]
      simp only [Range.since]
      omega
    · simp only [Range.since]
      omega

/-- The region at a place has the action of the entry there. -/
theorem actionAt_ofSet (hord : set.entries.Pairwise Before) {place : Nat}
    (hplace : place < (filled set defaultAction).length) :
    (ofSet set defaultAction).actionAt place = (filled set defaultAction)[place].action := by
  rw [IntervalSet.action_getElem_eq_alternate (isNormal_filled hord defaultAction).separate
    (covers_filled hord defaultAction) hplace defaultAction]
  exact actionAt_eq_alternate rfl place

/-- Looking at all places of a list in turn gives the list. -/
theorem filterMap_range_eq {α : Type} {l : List α} {f : Nat → Option α}
    (hf : ∀ i (hi : i < l.length), f i = some l[i]) :
    (List.range l.length).filterMap f = l := by
  induction l generalizing f with
  | nil => rfl
  | cons x l ih =>
    have hhead : f 0 = some x := hf 0 (Nat.zero_lt_succ _)
    have htail : (List.range l.length).filterMap (f ∘ Nat.succ) = l :=
      ih fun i hi => hf (i + 1) (Nat.succ_lt_succ hi)
    rw [List.length_cons, List.range_succ_eq_map, List.filterMap_cons, hhead, List.filterMap_map,
      htail]

/-- The regions of a table are the entries that it was made of. -/
theorem regions_ofSet (hord : set.entries.Pairwise Before) (defaultAction : Action) :
    (ofSet set defaultAction).regions = filled set defaultAction := by
  rw [regions, size_ofSet]
  apply filterMap_range_eq
  intro place hplace
  rw [rangeAt?_ofSet hord hplace, actionAt_ofSet hord hplace]
  rfl

end LookupTable
end AccessList
