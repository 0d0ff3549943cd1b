import AccessList.Proofs.CanonicalForm

/-!
# Laws of insertion

Entries in normal form are determined by the answers, so two ways of inserting lead to the same
entries exactly when they decide every address alike. An insertion into what is decided already
changes nothing, and two insertions can be made in either order unless they contend for an
address: it is undecided, both regions hold it, and their actions differ.
-/

namespace AccessList.IntervalSet

open Region (Before IsNormal)

variable {family : Family} {set other : IntervalSet family}

/-- Sets in normal form have the same entries exactly when they give the same answers. -/
theorem entries_eq_iff_find?_eq (hset : IsNormal set.entries) (hother : IsNormal other.entries) :
    set.entries = other.entries ↔ ∀ a, set.find? a = other.find? a := by
  constructor
  · intro heq a
    rw [find?, find?, heq]
  · exact hset.eq_of_find?_eq hother

/-! ## Insertions that change nothing -/

/-- An insertion into what is decided already changes nothing. -/
theorem entries_insert_of_decided (hset : IsNormal set.entries) {incoming : Region family}
    (hdecided : ∀ a ∈ incoming.range, set.find? a ≠ none) :
    (set.insert incoming).entries = set.entries := by
  refine (entries_eq_iff_find?_eq (isNormal_insert hset.ordered incoming) hset).mpr fun a => ?_
  by_cases ha : a ∈ incoming.range
  · obtain ⟨action, haction⟩ := Option.ne_none_iff_exists'.mp (hdecided a ha)
    rw [find?_insert hset.ordered, haction, Option.some_or]
  · exact find?_insert_of_notMem hset.ordered ha

/-! ## Insertions in either order -/

/-- Of two offers for an answer that may be there already, it does not matter which one is
considered first, unless both are open and differ. -/
theorem or_ite_or_ite_comm_iff {α : Type} {answer : Option α} {x y : α} {p q : Prop}
    [Decidable p] [Decidable q] :
    (answer.or (if p then some x else none)).or (if q then some y else none) =
        (answer.or (if q then some y else none)).or (if p then some x else none) ↔
      x = y ∨ ¬ (p ∧ q ∧ answer = none) := by
  cases answer with
  | some answer => simp
  | none => by_cases hp : p <;> by_cases hq : q <;> simp [hp, hq]

/-- In every set that insertions lead to, two regions can be inserted in either order with the
same outcome exactly when they have the same action or hold no undecided address in common. -/
theorem entries_insert_insert_comm_iff (hset : set.Reachable) (r s : Region family) :
    ((set.insert r).insert s).entries = ((set.insert s).insert r).entries ↔
      r.action = s.action ∨
        ¬ ∃ a, a ∈ r.range ∧ a ∈ s.range ∧ ∀ entry ∈ set.entries, a ∉ entry.range := by
  have hord := hset.isNormal.ordered
  have hr : (set.insert r).entries.Pairwise Before := (isNormal_insert hord r).ordered
  have hs : (set.insert s).entries.Pairwise Before := (isNormal_insert hord s).ordered
  calc ((set.insert r).insert s).entries = ((set.insert s).insert r).entries
      ↔ ∀ a, ((set.insert r).insert s).find? a = ((set.insert s).insert r).find? a :=
        entries_eq_iff_find?_eq (isNormal_insert hr s) (isNormal_insert hs r)
    _ ↔ ∀ a, r.action = s.action ∨ ¬ (a ∈ r.range ∧ a ∈ s.range ∧ set.find? a = none) := by
        simp only [find?_insert hr, find?_insert hs, find?_insert hord, or_ite_or_ite_comm_iff]
    _ ↔ r.action = s.action ∨
          ¬ ∃ a, a ∈ r.range ∧ a ∈ s.range ∧ ∀ entry ∈ set.entries, a ∉ entry.range := by
        simp only [find?, Region.find?_eq_none_iff, forall_or_left, not_exists]

/-- Around two denied addresses, a denied and an allowed region that share only these can change
places; two regions that share an address above them as well cannot. -/
theorem entries_insert_insert_comm_around_denied :
    let set : IntervalSet .v4 := IntervalSet.empty.insert ⟨⟨.ofNat 5, .ofNat 6, by decide⟩, .deny⟩
    let r : Region .v4 := ⟨⟨.ofNat 4, .ofNat 6, by decide⟩, .deny⟩
    let s : Region .v4 := ⟨⟨.ofNat 5, .ofNat 8, by decide⟩, .allow⟩
    let t : Region .v4 := ⟨⟨.ofNat 6, .ofNat 7, by decide⟩, .deny⟩
    set.Reachable ∧ ((set.insert r).insert s).entries = ((set.insert s).insert r).entries ∧
      ((set.insert s).insert t).entries ≠ ((set.insert t).insert s).entries := by
  intro set r s t
  have hset : set.Reachable := .insert _ .empty
  refine ⟨hset, (entries_insert_insert_comm_iff hset r s).mpr (.inr ?_), fun heq => ?_⟩
  · rintro ⟨a, har, has, hnone⟩
    exact hnone ⟨⟨.ofNat 5, .ofNat 6, by decide⟩, .deny⟩ (by decide) ⟨has.1, har.2⟩
  · rcases (entries_insert_insert_comm_iff hset s t).mp heq with haction | hshared
    · exact absurd haction (by decide)
    · exact hshared ⟨.ofNat 7, by decide, by decide, by decide⟩

end AccessList.IntervalSet
