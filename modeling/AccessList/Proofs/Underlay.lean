import AccessList.IntervalSet.Sweep
import AccessList.Proofs.RegionOrder

/-!
# What a sweep leaves behind

A sweep lays a range under the entries that it passes. Seen through the answers, the range comes
after all entries, although its pieces stand between them; and they stand where they belong in
the order.
-/

namespace AccessList

variable {family : Family} {action : Action}

/-- A range that may be missing, as the regions that it contributes. -/
def Region.ofRange? (action : Action) (range : Option (Range family)) : List (Region family) :=
  range.toList.map (⟨·, action⟩)

namespace Region

/-- A range that is missing contributes no region. -/
@[simp] theorem ofRange?_none : ofRange? action (none : Option (Range family)) = [] := rfl

/-- A range that is there contributes one region. -/
@[simp] theorem ofRange?_some (r : Range family) : ofRange? action (some r) = [⟨r, action⟩] := rfl

/-- The only region that a range contributes has that range and the action. -/
theorem mem_ofRange? {range : Option (Range family)} {t : Region family} :
    t ∈ ofRange? action range ↔ range = some t.range ∧ t.action = action := by
  cases range with
  | none => simp
  | some r =>
    simp only [ofRange?_some, List.mem_singleton, Option.some.injEq]
    constructor
    · rintro rfl
      exact ⟨rfl, rfl⟩
    · rintro ⟨rfl, rfl⟩
      rfl

/-- A range that may be missing decides the addresses that it has. -/
theorem find?_ofRange? {range : Option (Range family)} {a : Address family} {p : Prop} [Decidable p]
    (h : (∃ r ∈ range, a ∈ r) ↔ p) :
    find? (ofRange? action range) a = if p then some action else none := by
  cases range with
  | none =>
    have hp : ¬ p := by simpa using h
    rw [ofRange?_none, find?_nil, if_neg hp]
  | some r =>
    have hp : a ∈ r ↔ p := by simpa using h
    rw [ofRange?_some, find?_cons, find?_nil]
    exact if_congr hp rfl rfl

/-- The part of a range below an address decides what the range holds there. -/
theorem find?_below? (r : Range family) (bound a : Address family) :
    find? (ofRange? action (r.below? bound)) a =
      if a ∈ r ∧ a < bound then some action else none :=
  find?_ofRange? Range.exists_mem_below?_iff

/-- The part of a range above an address decides what the range holds there. -/
theorem find?_above? (r : Range family) (bound a : Address family) :
    find? (ofRange? action (r.above? bound)) a =
      if a ∈ r ∧ bound < a then some action else none :=
  find?_ofRange? Range.exists_mem_above?_iff

end Region

namespace Sweep

/-- A sweep with nothing to lay down leaves the entries alone. -/
@[simp] theorem pieces_run_none (entries : List (Region family)) :
    (run action entries none).pieces action = entries := by
  cases entries <;> simp [run, pieces]

/-- With no entry in the way, all of the range is laid down. -/
@[simp] theorem pieces_run_nil (rest : Option (Range family)) :
    (run action [] rest).pieces action = Region.ofRange? action rest := by
  cases rest <;> simp [run, pieces, Region.ofRange?]

/-- A step adds its piece in front. -/
theorem pieces_after (step : Step family) (course : Sweep family) :
    (course.after step).pieces action = step.piece :: course.pieces action := rfl

/-- An entry that starts no later than the range takes one step, and the sweep goes on behind it. -/
theorem run_cons_of_kept {entry : Region family} {rest : Range family}
    (later : List (Region family)) (hbelow : rest.below? entry.range.lo = none) :
    run action (entry :: later) (some rest) =
      (run action later (rest.above? entry.range.hi)).after
        (.kept entry (rest.above? entry.range.hi)) := by
  rw [run, hbelow]

/-- What the range has below an entry takes one step, and the sweep goes on at the same entry. -/
theorem run_cons_of_filled {entry : Region family} {rest gap : Range family}
    (later : List (Region family)) (hbelow : rest.below? entry.range.lo = some gap) :
    run action (entry :: later) (some rest) =
      (run action (entry :: later) (rest.above? gap.hi)).after
        (.filled ⟨gap, action⟩ (rest.above? gap.hi)) := by
  cases habove : rest.above? gap.hi with
  | none =>
    simp only [run, hbelow, habove]
    rfl
  | some remaining =>
    have hstart := Range.below?_eq_none_of_above? hbelow habove
    have hbeyond := rest.above?_bind_above? (Range.hi_le_hi_of_below? hbelow)
    rw [habove, Option.bind_some] at hbeyond
    rw [run_cons_of_kept later hstart, hbeyond, run, hbelow]
    simp only [habove]

/-- A sweep that has nothing to fill in below an entry keeps it and goes on with what the range has
above it. -/
theorem pieces_run_cons_of_reached {entry : Region family} {rest : Option (Range family)}
    (later : List (Region family)) (hrest : ∀ r ∈ rest, r.below? entry.range.lo = none) :
    (run action (entry :: later) rest).pieces action =
      entry :: (run action later (rest.bind (·.above? entry.range.hi))).pieces action := by
  cases rest with
  | none => rw [Option.bind_none, pieces_run_none, pieces_run_none]
  | some rest =>
    rw [run_cons_of_kept later (hrest rest rfl), pieces_after, Option.bind_some]
    rfl

/-- At an entry a sweep lays down what the range has below the entry, keeps the entry and goes on
with what the range has above it. That nothing remains after a gap needs no case of its own: then
nothing of the range is above the entry either. -/
theorem pieces_run_cons (entry : Region family) (later : List (Region family))
    (rest : Range family) :
    (run action (entry :: later) (some rest)).pieces action =
      Region.ofRange? action (rest.below? entry.range.lo) ++ entry ::
        (run action later (rest.above? entry.range.hi)).pieces action := by
  cases hbelow : rest.below? entry.range.lo with
  | none => exact pieces_run_cons_of_reached later fun r hr => Option.some_inj.mp hr ▸ hbelow
  | some gap =>
    have hreached := fun r hr => Range.below?_eq_none_of_above? hbelow (s := r) hr
    rw [run_cons_of_filled later hbelow, pieces_after, pieces_run_cons_of_reached later hreached,
      rest.above?_bind_above? (Range.hi_le_hi_of_below? hbelow)]
    rfl

/-- A piece is an entry, or a part of the range with the action laid down. -/
theorem mem_pieces_run {entries : List (Region family)} {rest : Option (Range family)}
    {t : Region family} (ht : t ∈ (run action entries rest).pieces action) :
    t ∈ entries ∨ t.action = action ∧ ∃ r, rest = some r ∧ r.lo ≤ t.range.lo ∧
      t.range.hi ≤ r.hi := by
  induction entries generalizing rest with
  | nil =>
    rw [pieces_run_nil, Region.mem_ofRange?] at ht
    exact .inr ⟨ht.2, t.range, ht.1, Nat.le_refl _, Nat.le_refl _⟩
  | cons entry later ih =>
    cases rest with
    | none => exact .inl (by simpa using ht)
    | some rest =>
      rw [pieces_run_cons, List.mem_append, Region.mem_ofRange?, List.mem_cons] at ht
      rcases ht with ⟨hbelow, haction⟩ | rfl | ht
      · obtain ⟨_, hlo, hhi⟩ := Range.below?_eq_some_iff.mp hbelow
        refine .inr ⟨haction, rest, rfl, ?_, ?_⟩
        · rw [hlo]
          exact Nat.le_refl _
        · rw [Address.le_def]
          omega
      · exact .inl List.mem_cons_self
      · rcases ih ht with ht | ⟨haction, r, habove, hlo, hhi⟩
        · exact .inl (List.mem_cons_of_mem _ ht)
        · obtain ⟨_, hrhi, hrlo⟩ := Range.above?_eq_some_iff.mp habove
          rw [Address.le_def] at hlo hhi
          refine .inr ⟨haction, rest, rfl, ?_, ?_⟩
          · rw [Address.le_def]
            omega
          · rwa [hrhi] at hhi

/-- Laying a range under ordered entries gives ordered pieces. What comes after an entry is a later
entry or a part of the range above it. -/
theorem pairwise_before_pieces_run {entries : List (Region family)}
    (hord : entries.Pairwise Region.Before) (rest : Option (Range family)) :
    ((run action entries rest).pieces action).Pairwise Region.Before := by
  induction entries generalizing rest with
  | nil => cases rest <;> simp
  | cons entry later ih =>
    cases rest with
    | none => simpa using hord
    | some rest =>
      obtain ⟨hbefore, hord⟩ := List.pairwise_cons.mp hord
      have hafter : ∀ t ∈ (run action later (rest.above? entry.range.hi)).pieces action,
          entry.Before t := by
        intro t ht
        rcases mem_pieces_run ht with ht | ⟨_, r, habove, hlo, _⟩
        · exact hbefore t ht
        · obtain ⟨_, _, hrlo⟩ := Range.above?_eq_some_iff.mp habove
          rw [Address.le_def] at hlo
          rw [Region.before_def]
          omega
      rw [pieces_run_cons, List.pairwise_append]
      refine ⟨?_, List.pairwise_cons.mpr ⟨hafter, ih hord _⟩, fun gap hgap t ht => ?_⟩
      · cases rest.below? entry.range.lo <;> simp
      · obtain ⟨hbelow, _⟩ := Region.mem_ofRange?.mp hgap
        obtain ⟨hlo, _, hhi⟩ := Range.below?_eq_some_iff.mp hbelow
        have hgapEntry : gap.Before entry := by
          rw [Address.lt_def] at hlo
          rw [Region.before_def]
          omega
        rcases List.mem_cons.mp ht with rfl | ht
        · exact hgapEntry
        · exact hgapEntry.trans (hafter t ht)

/-- Where the answers are concerned, a range laid under ordered entries comes after all of
them. -/
theorem find?_pieces_run {entries : List (Region family)}
    (hord : entries.Pairwise Region.Before) (rest : Option (Range family)) (a : Address family) :
    Region.find? ((run action entries rest).pieces action) a =
      (Region.find? entries a).or (Region.find? (Region.ofRange? action rest) a) := by
  induction entries generalizing rest with
  | nil => simp
  | cons entry later ih =>
    cases rest with
    | none => simp
    | some rest =>
      obtain ⟨hbefore, hord⟩ := List.pairwise_cons.mp hord
      rw [pieces_run_cons, Region.find?_append, Region.find?_cons, ih hord, Region.find?_cons]
      simp only [Region.find?_below?, Region.find?_above?, Region.ofRange?_some,
        Region.find?_cons, Region.find?_nil]
      by_cases hentry : a ∈ entry.range
      · have hnot : ¬ a < entry.range.lo := by
          simp only [Range.mem_def, Address.le_def, Address.lt_def] at hentry ⊢
          omega
        simp [hentry, hnot]
      · by_cases hrest : a ∈ rest
        · by_cases hlow : a < entry.range.lo
          · have hle : a ≤ entry.range.hi :=
              Nat.le_trans (Nat.le_of_lt hlow) entry.range.lo_le_hi
            have hlater : Region.find? later a = none := by
              rw [Region.find?_eq_none_iff]
              exact fun s hs hmem => (hbefore s hs).not_lo_le hle hmem.1
            simp [hentry, hrest, hlow, hlater]
          · have hhigh : entry.range.hi < a := by
              simp only [Range.mem_def, Address.le_def, Address.lt_def] at hentry hlow ⊢
              omega
            simp [hentry, hrest, hlow, hhigh]
        · simp [hentry, hrest]

end Sweep
end AccessList
