import AccessList.Proofs.GuardedInsertion

/-!
# The turns of an insertion

An insertion takes turns while something remains of its range and entries are left to read. A turn
that fills in a gap reads no entry, so the entries that are left do not count the turns. But after a
gap either nothing remains of the range or it starts where the entry does, and then the next turn
reads the entry. So there are at most twice as many turns as entries, whatever the entries are, and
each entry is pushed once and in its place.
-/

namespace AccessList

variable {family : Family} {action : Action}

namespace Guarded

/-! ## What is pushed -/

/-- A region that an insertion pushes, and where it comes from. -/
inductive Pushed (family : Family) where
  /-- An entry of the set. -/
  | entry (region : Region family)
  /-- A part of the range that no entry holds. -/
  | gap (region : Region family)
  /-- What is left over of the range behind all entries. -/
  | leftover (region : Region family)

namespace Pushed

/-- The region that is pushed. -/
def region : Pushed family → Region family
  | entry region => region
  | gap region => region
  | leftover region => region

/-- The entry that is pushed, if it is one. -/
def entry? : Pushed family → Option (Region family)
  | entry region => some region
  | gap _ => none
  | leftover _ => none

/-- Whether what is pushed is left over of the range. -/
def isLeftover : Pushed family → Bool
  | entry _ => false
  | gap _ => false
  | leftover _ => true

/-- Entries that are pushed are pushed as the regions that they are. -/
theorem map_region_map_entry (entries : List (Region family)) :
    (entries.map entry).map region = entries := by
  rw [List.map_map]
  exact List.map_id entries

/-- All entries that are pushed count as entries. -/
theorem filterMap_entry?_map_entry (entries : List (Region family)) :
    (entries.map entry).filterMap entry? = entries := by
  rw [List.filterMap_map]
  exact List.filterMap_some

end Pushed

/-! ## The loop -/

/-- An insertion between two turns. -/
structure Loop (family : Family) where
  /-- What was pushed, in order. -/
  pushed : List (Pushed family)
  /-- The entries not read yet. -/
  unread : List (Region family)
  /-- What remains of the range. -/
  rest : Option (Range family)

namespace Loop

/-- An insertion before the first turn. -/
def start (set : IntervalSet family) (incoming : Region family) : Loop family :=
  ⟨[], set.entries, some incoming.range⟩

/-- Takes a turn, unless nothing remains of the range or no entry is left. To find that the loop is
over is not a turn. -/
def turn (action : Action) : Loop family → Except (Fault family) (Option (Loop family))
  | ⟨pushed, entry :: later, some rest⟩ => do
    match ← Guarded.turn action entry rest with
    | .kept kept beyond => .ok (some ⟨pushed ++ [.entry kept], later, beyond⟩)
    | .filled gap beyond => .ok (some ⟨pushed ++ [.gap gap], entry :: later, beyond⟩)
  | _ => .ok none

/-- All that the insertion pushes if there are no more turns: then comes what is left over of the
range, or if nothing is, the entries that were not read. -/
def finish (action : Action) (loop : Loop family) : List (Pushed family) :=
  loop.pushed ++
    match loop.rest with
    | some rest => [.leftover ⟨rest, action⟩]
    | none => loop.unread.map .entry

/-- A number of turns, one after another. -/
inductive Turns (action : Action) : Nat → Loop family → Loop family → Prop where
  /-- No turn. -/
  | zero (loop : Loop family) : Turns action 0 loop loop
  /-- A turn before the others. -/
  | succ {loop next last : Loop family} {count : Nat} : loop.turn action = .ok (some next) →
      Turns action count next last → Turns action (count + 1) loop last

/-- What a turn does to the loop. -/
inductive Advances (action : Action) : Loop family → Loop family → Prop where
  /-- An entry that starts no later than the range is read and pushed. -/
  | kept {pushed : List (Pushed family)} {entry : Region family} {later : List (Region family)}
      {rest : Range family} : rest.below? entry.range.lo = none →
      Advances action ⟨pushed, entry :: later, some rest⟩
        ⟨pushed ++ [.entry entry], later, rest.above? entry.range.hi⟩
  /-- What the range has below the next entry is pushed, and the entry is not read. -/
  | filled {pushed : List (Pushed family)} {entry : Region family} {later : List (Region family)}
      {rest gap : Range family} : rest.below? entry.range.lo = some gap →
      Advances action ⟨pushed, entry :: later, some rest⟩
        ⟨pushed ++ [.gap ⟨gap, action⟩], entry :: later, rest.above? gap.hi⟩

variable {loop next last : Loop family} {count : Nat}

/-- No turn meets a fault: the loop is over, or it goes on in one of two ways. -/
theorem turn_cases (action : Action) (loop : Loop family) :
    (loop.turn action = .ok none ∧ (loop.rest = none ∨ loop.unread = [])) ∨
      ∃ next, loop.turn action = .ok (some next) ∧ Advances action loop next := by
  obtain ⟨pushed, unread, rest⟩ := loop
  cases rest with
  | none => exact .inl ⟨by cases unread <;> rfl, .inl rfl⟩
  | some rest =>
    cases unread with
    | nil => exact .inl ⟨rfl, .inr rfl⟩
    | cons entry later =>
      right
      cases hbelow : rest.below? entry.range.lo with
      | none =>
        refine ⟨_, ?_, .kept hbelow⟩
        rw [turn, turn_eq_kept hbelow]
        rfl
      | some gap =>
        refine ⟨_, ?_, .filled hbelow⟩
        rw [turn, turn_eq_filled hbelow]
        rfl

/-- A turn that is taken is one of the two kinds. -/
theorem advances_of_turn (h : loop.turn action = .ok (some next)) : Advances action loop next := by
  rcases turn_cases action loop with ⟨hover, _⟩ | ⟨other, hturn, hadvances⟩
  · rw [hover] at h
    cases h
  · rw [hturn] at h
    cases h
    exact hadvances

/-- A loop is over only when nothing remains of the range or no entry is left. -/
theorem rest_eq_none_or_unread_eq_nil (h : loop.turn action = .ok none) :
    loop.rest = none ∨ loop.unread = [] := by
  rcases turn_cases action loop with ⟨_, hover⟩ | ⟨_, hturn, _⟩
  · exact hover
  · rw [hturn] at h
    cases h

/-! ## What a turn keeps -/

/-- The sweep that is left to do. -/
def sweep (action : Action) (loop : Loop family) : Sweep family :=
  .run action loop.unread loop.rest

/-- How many turns the loop still has at most. -/
def turnsLeft (loop : Loop family) : Nat := Guarded.turnsLeft loop.unread loop.rest

/-- A turn takes the first step of the sweep that is left and pushes its piece, which is the next
entry or a gap. -/
theorem Advances.exists_step (h : Advances action loop next) :
    ∃ (p : Pushed family) (step : Step family), next.pushed = loop.pushed ++ [p] ∧
      p.entry?.toList ++ next.unread = loop.unread ∧ p.isLeftover = false ∧
      p.region = step.piece ∧ loop.sweep action = (next.sweep action).after step := by
  cases h with
  | kept hbelow => exact ⟨_, .kept _ _, rfl, rfl, rfl, rfl, Sweep.run_cons_of_kept _ hbelow⟩
  | filled hbelow => exact ⟨_, .filled _ _, rfl, rfl, rfl, rfl, Sweep.run_cons_of_filled _ hbelow⟩

/-- After a turn fewer turns are left. -/
theorem Advances.turnsLeft_lt (h : Advances action loop next) :
    next.turnsLeft < loop.turnsLeft := by
  cases h with
  | kept hbelow => exact turnsLeft_of_kept _ _ _ _
  | filled hbelow => exact turnsLeft_of_filled _ hbelow

/-- The loop stands somewhere in the insertion of a region into a set. -/
structure IsUnderway (set : IntervalSet family) (incoming : Region family) (loop : Loop family) :
    Prop where
  /-- The entries that were pushed and those not read yet are all entries, in order. -/
  entries_eq : loop.pushed.filterMap Pushed.entry? ++ loop.unread = set.entries
  /-- Nothing that is left over was pushed yet. -/
  isLeftover_eq_false : ∀ p ∈ loop.pushed, p.isLeftover = false
  /-- What was pushed and what the rest of the sweep leaves behind is all that it leaves behind. -/
  pieces_eq : loop.pushed.map Pushed.region ++
    (loop.sweep incoming.action).pieces incoming.action =
      (set.sweep incoming).pieces incoming.action
  /-- In the end the same is left over. -/
  leftover_eq : (loop.sweep incoming.action).leftover = (set.sweep incoming).leftover

variable {set : IntervalSet family} {incoming : Region family}

/-- At the start an insertion is under way, with all entries to be read. -/
theorem isUnderway_start (set : IntervalSet family) (incoming : Region family) :
    IsUnderway set incoming (start set incoming) where
  entries_eq := rfl
  isLeftover_eq_false _ hp := absurd hp List.not_mem_nil
  pieces_eq := rfl
  leftover_eq := rfl

/-- An insertion that is under way still is after a turn. -/
theorem IsUnderway.advance (h : IsUnderway set incoming loop)
    (hadvances : Advances incoming.action loop next) : IsUnderway set incoming next := by
  obtain ⟨p, step, hpushed, hunread, hleftover, hregion, hsweep⟩ := hadvances.exists_step
  constructor
  case entries_eq =>
    have hentry : [p].filterMap Pushed.entry? = p.entry?.toList := by
      cases hp : p.entry? <;> simp [hp]
    rw [← h.entries_eq, ← hunread, hpushed, List.filterMap_append, hentry, List.append_assoc]
  case isLeftover_eq_false =>
    intro q hq
    rw [hpushed, List.mem_append, List.mem_singleton] at hq
    rcases hq with hq | rfl
    · exact h.isLeftover_eq_false q hq
    · exact hleftover
  case pieces_eq =>
    rw [← h.pieces_eq, hsweep, Sweep.pieces_after, ← hregion, hpushed, List.map_append,
      List.append_assoc]
    rfl
  case leftover_eq => rw [← h.leftover_eq, hsweep, Sweep.after]

/-! ## Whole runs -/

/-- An insertion that is under way still is after any number of turns. -/
theorem Turns.isUnderway (hturns : Turns incoming.action count loop last)
    (h : IsUnderway set incoming loop) : IsUnderway set incoming last := by
  induction hturns with
  | zero => exact h
  | succ hturn _ ih => exact ih (h.advance (advances_of_turn hturn))

/-- The turns taken and those that are left are no more than were left at first. -/
theorem Turns.add_turnsLeft_le (hturns : Turns action count loop last) :
    count + last.turnsLeft ≤ loop.turnsLeft := by
  induction hturns with
  | zero => omega
  | succ hturn _ ih =>
    have hlt := (advances_of_turn hturn).turnsLeft_lt
    omega

/-- Each turn takes one step of the sweep. -/
theorem Turns.add_length_steps_eq (hturns : Turns action count loop last) :
    count + (last.sweep action).steps.length = (loop.sweep action).steps.length := by
  induction hturns with
  | zero => omega
  | succ hturn _ ih =>
    obtain ⟨_, _, _, _, _, _, hsweep⟩ := (advances_of_turn hturn).exists_step
    rw [hsweep, Sweep.after, List.length_cons]
    omega

/-- The loop comes to its end, because every turn leaves fewer turns, and a loop that is not over
can take one. -/
theorem exists_turns (action : Action) (loop : Loop family) :
    ∃ count last, Turns action count loop last ∧ last.turn action = .ok none := by
  induction hleft : loop.turnsLeft using Nat.strong_induction_on generalizing loop with
  | _ left ih =>
    rcases turn_cases action loop with ⟨hover, _⟩ | ⟨next, hturn, hadvances⟩
    · exact ⟨0, loop, .zero loop, hover⟩
    · have hlt := hadvances.turnsLeft_lt
      obtain ⟨count, last, hturns, hover⟩ := ih next.turnsLeft (by omega) next rfl
      exact ⟨count + 1, last, .succ hturn hturns, hover⟩

/-! ## The end of the loop -/

/-- When the loop is over, the sweep has no more steps. It leaves behind the entries not read, if
nothing remains of the range, and else what remains. -/
theorem sweep_eq_of_turn_eq_none (hover : loop.turn action = .ok none) :
    loop.sweep action = ⟨[], loop.rest, loop.unread⟩ := by
  obtain ⟨pushed, unread, rest⟩ := loop
  rcases rest_eq_none_or_unread_eq_nil hover with hrest | hunread
  · cases hrest
    cases unread <;> rfl
  · cases hunread
    cases rest <;> rfl

/-- When the loop is over, the entries not read are pushed, and after them what is left over. Not
both of these are there. -/
theorem finish_eq_of_turn_eq_none (hover : loop.turn action = .ok none) :
    loop.finish action = loop.pushed ++ loop.unread.map .entry ++
      loop.rest.toList.map (.leftover ⟨·, action⟩) := by
  obtain ⟨pushed, unread, rest⟩ := loop
  rcases rest_eq_none_or_unread_eq_nil hover with hrest | hunread
  · cases hrest
    simp [finish]
  · cases hunread
    cases rest <;> simp [finish]

/-- In the end the insertion has pushed all that the sweep leaves behind. -/
theorem IsUnderway.map_region_finish (h : IsUnderway set incoming loop)
    (hover : loop.turn incoming.action = .ok none) :
    (loop.finish incoming.action).map Pushed.region =
      (set.sweep incoming).pieces incoming.action := by
  rw [← h.pieces_eq, sweep_eq_of_turn_eq_none hover, finish, List.map_append]
  rcases rest_eq_none_or_unread_eq_nil hover with hrest | hunread
  · rw [hrest, Pushed.map_region_map_entry]
    rfl
  · cases hrest : loop.rest <;> simp [hunread, Sweep.pieces, Pushed.region]

/-- Whatever the entries of a set are, in order or not and disjoint or not, and whatever region is
inserted: the loop takes at most twice as many turns as there are entries, and it comes to its end,
after as many turns as the sweep has steps. A pass that finds no entry to read, and so only ends the
loop, is not counted as a turn; with it there are at most twice as many passes as entries, and one
more. All that is pushed in the loop and behind it are the entries of the set, each once and in
their order, perhaps with gaps between them, and after all of these what is left over of the region,
if there is something. Pushed one by one, this gives the entries that the insertion leads to. -/
theorem turns_le_and_entries_pushed_once (set : IntervalSet family) (incoming : Region family) :
    (∀ count loop, Turns incoming.action count (start set incoming) loop →
        count ≤ 2 * set.entries.length) ∧
      ∃ last parts,
        Turns incoming.action (set.sweep incoming).steps.length (start set incoming) last ∧
          last.turn incoming.action = .ok none ∧
          last.finish incoming.action =
            parts ++ (set.sweep incoming).leftover.toList.map (.leftover ⟨·, incoming.action⟩) ∧
          parts.filterMap Pushed.entry? = set.entries ∧
          (∀ p ∈ parts, p.isLeftover = false) ∧
          ((last.finish incoming.action).map Pushed.region).foldlM push [] =
            .ok (set.insert incoming).entries.reverse := by
  constructor
  · intro count loop hturns
    have hadd := hturns.add_turnsLeft_le
    have hle : (start set incoming).turnsLeft ≤ 2 * set.entries.length := turnsLeft_le _ _
    omega
  · obtain ⟨count, last, hturns, hover⟩ := exists_turns incoming.action (start set incoming)
    have hunderway := hturns.isUnderway (isUnderway_start set incoming)
    have hsweep := sweep_eq_of_turn_eq_none hover
    have hcount : count = (set.sweep incoming).steps.length := by
      have hadd := hturns.add_length_steps_eq
      rwa [hsweep] at hadd
    have hleftover : last.rest = (set.sweep incoming).leftover := by
      rw [← hunderway.leftover_eq, hsweep]
    have hfinish := finish_eq_of_turn_eq_none hover
    rw [hleftover] at hfinish
    have hentries : (last.pushed ++ last.unread.map Pushed.entry).filterMap Pushed.entry? =
        set.entries := by
      rw [List.filterMap_append, Pushed.filterMap_entry?_map_entry, hunderway.entries_eq]
    have hparts : ∀ p ∈ last.pushed ++ last.unread.map Pushed.entry, p.isLeftover = false := by
      intro p hp
      rcases List.mem_append.mp hp with hp | hp
      · exact hunderway.isLeftover_eq_false p hp
      · obtain ⟨entry, _, rfl⟩ := List.mem_map.mp hp
        rfl
    have hpush : ((last.finish incoming.action).map Pushed.region).foldlM push [] =
        .ok (set.insert incoming).entries.reverse := by
      rw [hunderway.map_region_finish hover, foldlM_push_nil]
      rfl
    exact ⟨last, _, hcount ▸ hturns, hover, hfinish, hentries, hparts, hpush⟩

/-- Three entries of which the second overlaps the first and starts below it. The loop fills in two
gaps, reads the entries as they stand, and leaves over the last address. -/
theorem turns_le_and_entries_pushed_once_in_disorder :
    let set : IntervalSet .v4 := { entries := [⟨⟨.ofNat 3, .ofNat 5, by decide⟩, .deny⟩,
      ⟨⟨.ofNat 1, .ofNat 4, by decide⟩, .allow⟩, ⟨.single (.ofNat 8), .deny⟩] }
    let incoming : Region .v4 := ⟨⟨.ofNat 0, .ofNat 9, by decide⟩, .allow⟩
    ∃ last parts, Turns .allow 5 (start set incoming) last ∧ 5 ≤ 2 * set.entries.length ∧
      last.turn .allow = .ok none ∧
      last.finish .allow = parts ++ [.leftover ⟨.single (.ofNat 9), .allow⟩] ∧
      parts.filterMap Pushed.entry? = set.entries := by
  intro set incoming
  obtain ⟨hle, last, parts, hturns, hover, hfinish, hentries, _⟩ :=
    turns_le_and_entries_pushed_once set incoming
  have hsteps : (set.sweep incoming).steps.length = 5 := by decide
  have hleftover : (set.sweep incoming).leftover = some (.single (.ofNat 9)) := by decide
  rw [hsteps] at hturns
  rw [hleftover] at hfinish
  exact ⟨last, parts, hturns, hle 5 last hturns, hover, hfinish, hentries⟩

end Loop
end Guarded
end AccessList
