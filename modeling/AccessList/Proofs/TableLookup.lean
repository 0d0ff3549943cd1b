import AccessList.LookupTable
import AccessList.Proofs.Insertion
import AccessList.Proofs.Tiling

/-!
# Looking up in a table

A table keeps only where regions start and the action of the first one. Halving finds how many
regions start at or below an address, and with the turns that the actions take this is enough to
answer like the set that the table was made of, with the default action for the rest.
-/

namespace AccessList.LookupTable

open Region (Before IsNormal)

variable {family : Family}

/-! ## Counting by halving -/

/-- Halving ends at a place with all addresses before it at or below the given one and all others
above it, if that holds of the two places that it starts from. -/
theorem countFrom_splits {starts : Array (Address family)} {a : Address family} {low high : Nat}
    (hord : starts.toList.Pairwise (· < ·)) (hle : low ≤ high) (hsize : high ≤ starts.size)
    (hlow : ∀ i (_ : i < starts.size), i < low → starts[i] ≤ a)
    (hhigh : ∀ i (_ : i < starts.size), high ≤ i → a < starts[i]) :
    countFrom starts a low high ≤ starts.size ∧
      (∀ i (_ : i < starts.size), i < countFrom starts a low high → starts[i] ≤ a) ∧
      ∀ i (_ : i < starts.size), countFrom starts a low high ≤ i → a < starts[i] := by
  have hmono : ∀ i j (_ : i < starts.size) (_ : j < starts.size), i < j →
      starts[i].toNat < starts[j].toNat := by
    intro i j hi hj hij
    exact Address.lt_def.mp (List.pairwise_iff_getElem.mp hord i j hi hj hij)
  fun_induction countFrom starts a low high with
  | case1 low high hlt middle hmid ih =>
    have hmiddle : middle < starts.size := by omega
    have hmid : starts[middle] ≤ a := by simpa [hmiddle] using hmid
    apply ih (by omega) hsize _ hhigh
    intro i hi hlt
    by_cases heq : i = middle
    · subst heq
      exact hmid
    · have hstep := hmono i middle hi hmiddle (by omega)
      rw [Address.le_def] at hmid ⊢
      omega
  | case2 low high hlt middle hmid ih =>
    have hmiddle : middle < starts.size := by omega
    have hmid : a.toNat < starts[middle].toNat := by
      simpa [hmiddle, Address.le_def] using hmid
    apply ih (by omega) (by omega) hlow
    intro i hi hle
    by_cases heq : i = middle
    · subst heq
      exact hmid
    · have hstep := hmono middle i hmiddle hi (by omega)
      rw [Address.lt_def]
      omega
  | case3 low high hge =>
    have heq : low = high := by omega
    subst heq
    exact ⟨hsize, hlow, hhigh⟩

/-- Where the elements before a place have a property and the others do not, the place is the
number of elements that have it. -/
theorem countP_eq_of_splits {α : Type} {l : List α} {p : α → Bool} {place : Nat}
    (hplace : place ≤ l.length) (hlow : ∀ i (_ : i < l.length), i < place → p l[i] = true)
    (hhigh : ∀ i (_ : i < l.length), place ≤ i → ¬ p l[i] = true) : l.countP p = place := by
  have htake : (l.take place).countP p = (l.take place).length := by
    rw [List.countP_eq_length]
    intro x hx
    obtain ⟨i, hi, rfl⟩ := List.mem_take_iff_getElem.mp hx
    exact hlow i (by omega) (by omega)
  have hdrop : (l.drop place).countP p = 0 := by
    rw [List.countP_eq_zero]
    intro x hx
    obtain ⟨i, hi, rfl⟩ := List.mem_drop_iff_getElem.mp hx
    exact hhigh (place + i) (by omega) (Nat.le_add_right _ _)
  conv_lhs => rw [← List.take_append_drop place l]
  rw [List.countP_append, htake, hdrop, List.length_take_of_le hplace, Nat.add_zero]

/-- With the starts in order, halving counts those at or below an address. -/
theorem count_eq_countP {table : LookupTable family}
    (hord : table.boundaries.Pairwise (· < ·)) (a : Address family) :
    table.count a = table.boundaries.countP (· ≤ a) := by
  obtain ⟨hsize, hlow, hhigh⟩ := countFrom_splits (a := a) hord (Nat.zero_le _)
    (Nat.le_refl _) (fun _ _ h => absurd h (Nat.not_lt_zero _)) (fun i hi hle => by omega)
  refine (countP_eq_of_splits hsize (fun i hi hlt => decide_eq_true (hlow i hi hlt)) ?_).symm
  intro i hi hle
  have habove := Address.lt_def.mp (hhigh i hi hle)
  simpa [boundaries, Address.le_def] using habove

/-- Regions at even and at odd places take turns. -/
theorem actionAt_eq_alternate {table : LookupTable family} {first : Action}
    (hfirst : table.denyOnEven = first.isDeny) (place : Nat) :
    table.actionAt place = first.alternate place := by
  unfold actionAt Action.alternate
  rw [hfirst]
  rcases Nat.mod_two_eq_zero_or_one place with h | h <;> cases first <;>
    simp [h, Action.isDeny, Action.negate]

/-! ## The regions of a table -/

/-- The entries that a table is made of: those of a set in which the default action decides the
rest. -/
def filled (set : IntervalSet family) (defaultAction : Action) : List (Region family) :=
  (set.insert (.full defaultAction)).entries

/-- The boundaries of a table are the starts of the entries that it is made of. -/
theorem boundaries_ofSet (set : IntervalSet family) (defaultAction : Action) :
    (ofSet set defaultAction).boundaries = (filled set defaultAction).map (·.range.lo) := rfl

variable {set : IntervalSet family}

/-- The entries that a table is made of are in normal form. -/
theorem isNormal_filled (hord : set.entries.Pairwise Before) (defaultAction : Action) :
    IsNormal (filled set defaultAction) :=
  IntervalSet.isNormal_insert hord _

/-- With the default action for the rest, every address is decided. -/
theorem find?_filled (hord : set.entries.Pairwise Before) (defaultAction : Action)
    (a : Address family) :
    Region.find? (filled set defaultAction) a = some ((set.find? a).getD defaultAction) :=
  IntervalSet.find?_insert_full hord defaultAction a

/-- With the default action for the rest, no gap is left. -/
theorem covers_filled (hord : set.entries.Pairwise Before) (defaultAction : Action) :
    IntervalSet.covers (some .first) (filled set defaultAction) = true := by
  apply IntervalSet.covers_of_total (isNormal_filled hord defaultAction).ordered
  · exact fun r _ => Address.first_le _
  · intro a _
    rw [find?_filled hord]
    exact Option.some_ne_none _

/-- The boundaries of a table are in order. -/
theorem pairwise_boundaries_ofSet (hord : set.entries.Pairwise Before) (defaultAction : Action) :
    (ofSet set defaultAction).boundaries.Pairwise (· < ·) := by
  rw [boundaries_ofSet, List.pairwise_map]
  exact (isNormal_filled hord defaultAction).ordered.imp fun hbefore => hbefore.lo_lt_lo

/-- A table answers like the regions that it was made of. -/
theorem find?_filled_eq_lookup (hord : set.entries.Pairwise Before) (defaultAction : Action)
    (a : Address family) :
    Region.find? (filled set defaultAction) a = some ((ofSet set defaultAction).lookup a) := by
  have hnormal := isNormal_filled hord defaultAction
  have hcovers := covers_filled hord defaultAction
  have hcount := count_eq_countP (pairwise_boundaries_ofSet hord defaultAction) a
  rw [boundaries_ofSet, List.countP_map] at hcount
  cases hfilled : filled set defaultAction with
  | nil => simp [hfilled, IntervalSet.covers] at hcovers
  | cons r regions =>
    rw [hfilled] at hnormal hcovers hcount
    have hlo : r.range.lo ≤ a := by
      have hfirst := (IntervalSet.covers_cons_iff.mp hcovers).1
      rw [← Option.some_inj.mp hfirst]
      exact a.first_le
    have hdeny : (ofSet set defaultAction).denyOnEven = r.action.isDeny := by
      change ((filled set defaultAction).head?.elim defaultAction (·.action)).isDeny = _
      rw [hfilled]
      rfl
    obtain ⟨place, hplace, hfind⟩ := IntervalSet.find?_eq_alternate hnormal hcovers hlo
    rw [hfind, lookup, hcount.trans hplace]
    exact congrArg some (actionAt_eq_alternate hdeny place).symm

/-- A table answers like the set that it was made of where the set decides, and by default
elsewhere. -/
theorem lookup_ofSet (hord : set.entries.Pairwise Before) (defaultAction : Action)
    (a : Address family) :
    (ofSet set defaultAction).lookup a = (set.find? a).getD defaultAction := by
  have hlookup := find?_filled_eq_lookup hord defaultAction a
  rw [find?_filled hord] at hlookup
  exact (Option.some_inj.mp hlookup).symm

/-- For every set that insertions lead to, an address that an entry holds gets the entry's action,
and an address that no entry holds gets the default action, be it below, between or above the
entries. -/
theorem lookup_ofSet_of_reachable (hset : set.Reachable) (defaultAction : Action)
    (a : Address family) :
    (∀ entry ∈ set.entries, a ∈ entry.range →
      (ofSet set defaultAction).lookup a = entry.action) ∧
    ((∀ entry ∈ set.entries, a ∉ entry.range) →
      (ofSet set defaultAction).lookup a = defaultAction) := by
  have hord := hset.isNormal.ordered
  rw [lookup_ofSet hord]
  constructor
  · intro entry hentry hmem
    rw [IntervalSet.find?, Region.find?_eq_some_of_mem hord hentry hmem, Option.getD_some]
  · intro hnone
    rw [IntervalSet.find?, Region.find?_eq_none_iff.mpr hnone, Option.getD_none]

/-- Two denied addresses with one between them: the table denies the second of them and allows
the one between and the last address. -/
theorem lookup_ofSet_two_denied :
    let set : IntervalSet .v4 :=
      (IntervalSet.empty.insert ⟨.single (.ofNat 9), .deny⟩).insert ⟨.single (.ofNat 7), .deny⟩
    set.Reachable ∧ (ofSet set .allow).lookup (.ofNat 9) = .deny ∧
      (ofSet set .allow).lookup (.ofNat 8) = .allow ∧
      (ofSet set .allow).lookup .last = .allow := by
  intro set
  have hset : set.Reachable := .insert _ (.insert _ .empty)
  refine ⟨hset, ?_, ?_, ?_⟩
  · exact (lookup_ofSet_of_reachable hset .allow (.ofNat 9)).1 ⟨.single (.ofNat 9), .deny⟩
      (by decide) (by decide)
  · exact (lookup_ofSet_of_reachable hset .allow (.ofNat 8)).2 (by decide)
  · exact (lookup_ofSet_of_reachable hset .allow .last).2 (by decide)

end AccessList.LookupTable
