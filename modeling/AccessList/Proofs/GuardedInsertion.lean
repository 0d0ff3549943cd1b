import AccessList.Proofs.Insertion

/-!
# Guarded runs

A machine does the work on interval sets and tables in small steps, and many a step relies on what
the steps before it left behind: that there is an address before another one, that the bounds of a
range are in order, that regions follow each other and take turns. Here each such step checks what
it relies on, and stops with a fault otherwise. Whatever is inserted into an empty set, no run
meets a fault, and it ends with what the library says.
-/

namespace AccessList

variable {family : Family}

/-- What a guarded step can find wrong. -/
inductive Fault (family : Family) where
  /-- The address before the first one was asked for. -/
  | beforeFirst
  /-- The bounds of a range are the wrong way round. -/
  | inverted (lo hi : Address family)
  /-- A region does not begin right after the one before it. -/
  | gap (r s : Region family)
  /-- A region has the action of the one before it. -/
  | sameAction (r s : Region family)
  /-- The last region does not end at the last address. -/
  | endsEarly (r : Region family)
  /-- An address is below all boundaries. -/
  | belowBoundaries (a : Address family)

namespace Guarded

/-! ## The steps of a machine -/

/-- The address before another one, which must not be the first. -/
def prev (a : Address family) : Except (Fault family) (Address family) :=
  if a = .first then .error .beforeFirst else .ok a.wrappingPrev

/-- The range between two bounds, which must be in order. -/
def range (lo hi : Address family) : Except (Fault family) (Range family) :=
  if h : lo ≤ hi then .ok ⟨lo, hi, h⟩ else .error (.inverted lo hi)

/-- Puts a region behind those already there, of which the last one comes first. If it goes on
where the last one ends, with the same action, the last one is extended instead. -/
def push (out : List (Region family)) (next : Region family) :
    Except (Fault family) (List (Region family)) :=
  match out with
  | [] => .ok [next]
  | last :: earlier =>
    if last.action = next.action ∧ last.range.hi.next? = some next.range.lo then do
      let extended ← range last.range.lo next.range.hi
      .ok (⟨extended, last.action⟩ :: earlier)
    else .ok (next :: last :: earlier)

/-- What remains of a range after an address in it. -/
def remainder? (rest : Range family) (a : Address family) : Option (Range family) :=
  a.next?.bind (Range.ofBounds? · rest.hi)

/-- A turn of a sweep. An entry that starts no later than the range is kept; otherwise what the
range has below the entry is filled in. -/
def turn (action : Action) (entry : Region family) (rest : Range family) :
    Except (Fault family) (Step family) :=
  if entry.range.lo ≤ rest.lo then
    .ok (.kept entry (if rest.lo ≤ entry.range.hi then remainder? rest entry.range.hi else some rest))
  else do
    let bound ← prev entry.range.lo
    let gap ← range rest.lo (min rest.hi bound)
    .ok (.filled ⟨gap, action⟩ (remainder? rest gap.hi))

/-! ## What a turn does -/

/-- Where there is a previous address, going back meets no fault. -/
theorem prev_eq_ok {a p : Address family} (h : a.prev? = some p) : prev a = .ok p := by
  unfold Address.prev? at h
  unfold prev
  split at h
  · cases h
  · next hne => rw [if_neg hne, Option.some_inj.mp h]

/-- Bounds that are those of a range make that range, without a fault. -/
theorem range_eq_ok {lo hi : Address family} {r : Range family} (hlo : r.lo = lo)
    (hhi : r.hi = hi) : range lo hi = .ok r := by
  subst hlo hhi
  exact dif_pos r.lo_le_hi

/-- After an address of a range, or right before the range, remains what is above the address. -/
theorem remainder?_eq_above? {rest : Range family} {a : Address family} (h : rest.lo ≤ a) :
    remainder? rest a = rest.above? a := by
  rw [Address.le_def] at h
  unfold remainder? Range.above?
  cases hnext : a.next? with
  | none => rfl
  | some next =>
    have hstep := Address.next?_eq_some_iff.mp hnext
    have hmax : max rest.lo next = next := by
      apply Address.ext_toNat
      rw [Address.toNat_max]
      omega
    rw [Option.bind_some, Option.bind_some, hmax]

/-- An entry that starts no later than the range is kept, and what the range has above it remains,
which is all of the range if the entry ends below it. -/
theorem turn_eq_kept {action : Action} {entry : Region family} {rest : Range family}
    (hbelow : rest.below? entry.range.lo = none) :
    turn action entry rest = .ok (.kept entry (rest.above? entry.range.hi)) := by
  rw [turn, if_pos (Range.below?_eq_none_iff.mp hbelow)]
  split
  · next hle => rw [remainder?_eq_above? hle]
  · next hgt =>
    have hrest := Address.le_def.mp rest.lo_le_hi
    rw [Address.le_def] at hgt
    have habove : rest.above? entry.range.hi = some rest := by
      rw [Range.above?_eq_some_iff, Address.lt_def]
      refine ⟨?_, rfl, ?_⟩ <;> omega
    rw [habove]

/-- Where the range has a part below the entry, that part is filled in without a fault, and what
the range has above it remains. -/
theorem turn_eq_filled {action : Action} {entry : Region family} {rest gap : Range family}
    (hbelow : rest.below? entry.range.lo = some gap) :
    turn action entry rest = .ok (.filled ⟨gap, action⟩ (rest.above? gap.hi)) := by
  obtain ⟨hlo, hgaplo, hgaphi⟩ := Range.below?_eq_some_iff.mp hbelow
  rw [Address.lt_def] at hlo
  have hgap := Address.le_def.mp gap.lo_le_hi
  have hstart : ¬ entry.range.lo ≤ rest.lo := by
    rw [Address.le_def]
    omega
  cases hprev : entry.range.lo.prev? with
  | none =>
    rw [Address.prev?_eq_none_iff.mp hprev, Address.toNat_first] at hlo
    omega
  | some bound =>
    have hstep := Address.prev?_eq_some_iff.mp hprev
    have hhi : gap.hi = min rest.hi bound := by
      apply Address.ext_toNat
      rw [Address.toNat_min]
      omega
    have hle : rest.lo ≤ gap.hi := by
      rw [Address.le_def, ← hgaplo]
      exact hgap
    rw [turn, if_neg hstart, prev_eq_ok hprev]
    change (range rest.lo (min rest.hi bound) >>= _) = _
    rw [range_eq_ok hgaplo hhi]
    change Except.ok (Step.filled ⟨gap, action⟩ (remainder? rest gap.hi)) = _
    rw [remainder?_eq_above? hle]

/-! ## A whole sweep -/

/-- How many turns a sweep has before it at most. -/
def turnsLeft : List (Region family) → Option (Range family) → Nat
  | entry :: later, some rest =>
    2 * later.length + if rest.lo < entry.range.lo then 2 else 1
  | _, _ => 0

/-- A sweep has at most two turns left for each entry. -/
theorem turnsLeft_le (entries : List (Region family)) (rest : Option (Range family)) :
    turnsLeft entries rest ≤ 2 * entries.length := by
  cases entries <;> cases rest <;> simp only [turnsLeft, List.length_cons] <;> try split
  all_goals omega

/-- Once an entry is kept, fewer turns are left. -/
theorem turnsLeft_of_kept (entry : Region family) (later : List (Region family))
    (rest : Range family) (beyond : Option (Range family)) :
    turnsLeft later beyond < turnsLeft (entry :: later) (some rest) := by
  have hle := turnsLeft_le later beyond
  have hpos : 2 * later.length < turnsLeft (entry :: later) (some rest) := by
    rw [turnsLeft]
    split <;> omega
  omega

/-- Once the part of the range below an entry is filled in, fewer turns are left: what remains of
the range starts where the entry does. -/
theorem turnsLeft_of_filled {entry : Region family} {rest gap : Range family}
    (later : List (Region family)) (hbelow : rest.below? entry.range.lo = some gap) :
    turnsLeft (entry :: later) (rest.above? gap.hi) < turnsLeft (entry :: later) (some rest) := by
  obtain ⟨hlo, _, _⟩ := Range.below?_eq_some_iff.mp hbelow
  have hfill : turnsLeft (entry :: later) (some rest) = 2 * later.length + 2 := by
    rw [turnsLeft, if_pos hlo]
  rw [hfill]
  cases habove : rest.above? gap.hi with
  | none => exact Nat.zero_lt_succ _
  | some remaining =>
    have hle := Range.below?_eq_none_iff.mp (Range.below?_eq_none_of_above? hbelow habove)
    have hnot : ¬ remaining.lo < entry.range.lo := Nat.not_lt.mpr hle
    rw [turnsLeft, if_neg hnot]
    omega

/-- Takes turns while something remains of the range and entries are left, and pushes what each
turn gives. What is left over in the end is pushed as well. -/
def sweep (action : Action) (out entries : List (Region family)) (rest : Option (Range family)) :
    Except (Fault family) (List (Region family)) :=
  match entries, rest with
  | entries, none => entries.foldlM push out
  | [], some rest => push out ⟨rest, action⟩
  | entry :: later, some rest =>
    match _hturn : turn action entry rest with
    | .error fault => .error fault
    | .ok (.kept kept beyond) => do sweep action (← push out kept) later beyond
    | .ok (.filled gap beyond) => do sweep action (← push out gap) (entry :: later) beyond
termination_by turnsLeft entries rest
decreasing_by
  · exact turnsLeft_of_kept entry later rest beyond
  · cases hbelow : rest.below? entry.range.lo with
    | none =>
      rw [turn_eq_kept hbelow] at _hturn
      cases _hturn
    | some part =>
      rw [turn_eq_filled hbelow] at _hturn
      cases _hturn
      exact turnsLeft_of_filled later hbelow

/-- A sweep pushes what the turn gives. It goes on from an entry that is kept, and stays at one
below which something is filled in. -/
theorem sweep_cons_eq {action : Action} {entry : Region family} {rest : Range family}
    {step : Step family} (hturn : turn action entry rest = .ok step)
    (out later : List (Region family)) :
    sweep action out (entry :: later) (some rest) =
      match step with
      | .kept kept beyond => push out kept >>= fun out => sweep action out later beyond
      | .filled gap beyond => push out gap >>= fun out => sweep action out (entry :: later) beyond := by
  rw [sweep]
  split
  · next hfault =>
    rw [hturn] at hfault
    cases hfault
  · next hkept =>
    rw [hturn] at hkept
    cases hkept
    rfl
  · next hfilled =>
    rw [hturn] at hfilled
    cases hfilled
    rfl

/-- Turn by turn a sweep pushes the pieces that the library lays down at once. -/
theorem sweep_eq_foldlM_push (action : Action) (out entries : List (Region family))
    (rest : Option (Range family)) :
    sweep action out entries rest =
      ((Sweep.run action entries rest).pieces action).foldlM push out := by
  induction hleft : turnsLeft entries rest using Nat.strong_induction_on
    generalizing out entries rest with
  | _ left ih =>
    cases rest with
    | none => simp [sweep]
    | some rest =>
      cases entries with
      | nil => simp [sweep]
      | cons entry later =>
        cases hbelow : rest.below? entry.range.lo with
        | none =>
          have hfewer := turnsLeft_of_kept entry later rest (rest.above? entry.range.hi)
          rw [sweep_cons_eq (turn_eq_kept hbelow), Sweep.run_cons_of_kept later hbelow,
            Sweep.pieces_after, List.foldlM_cons]
          exact congrArg (push out entry >>= ·)
            (funext fun out => ih _ (hleft ▸ hfewer) out later _ rfl)
        | some gap =>
          have hfewer := turnsLeft_of_filled later hbelow
          rw [sweep_cons_eq (turn_eq_filled hbelow), Sweep.run_cons_of_filled later hbelow,
            Sweep.pieces_after, List.foldlM_cons]
          exact congrArg (push out ⟨gap, action⟩ >>= ·)
            (funext fun out => ih _ (hleft ▸ hfewer) out (entry :: later) _ rfl)

/-! ## Pushing -/

/-- A region is pushed without a fault: an extended region starts where the last one did and ends
where the new one does. -/
theorem push_cons_eq_ok (last next : Region family) (earlier : List (Region family)) :
    push (last :: earlier) next = .ok
      (match last.join? next with
      | some joined => joined :: earlier
      | none => next :: last :: earlier) := by
  cases hjoin : last.join? next with
  | none =>
    have hnot : ¬ (last.action = next.action ∧ last.range.hi.next? = some next.range.lo) :=
      fun h => Region.join?_eq_none_iff.mp hjoin h.2 h.1
    rw [push, if_neg hnot]
  | some joined =>
    obtain ⟨haction, hnext, hlo, hhi, hjaction⟩ := Region.join?_eq_some_iff.mp hjoin
    rw [push, if_pos ⟨haction, hnext⟩]
    rw [range_eq_ok hlo hhi, ← hjaction]
    rfl

/-- Pushing regions one by one gives what joining all of them from the right gives, the last one
first. -/
theorem foldlM_push_cons (last : Region family) (earlier regions : List (Region family)) :
    regions.foldlM push (last :: earlier) =
      .ok ((Region.consJoined last (Region.coalesce regions)).reverse ++ earlier) := by
  induction regions generalizing last earlier with
  | nil => rfl
  | cons next regions ih =>
    rw [List.foldlM_cons, push_cons_eq_ok, Region.coalesce]
    cases hjoin : last.join? next with
    | none =>
      rw [Region.consJoined_consJoined_of_none hjoin, List.reverse_cons, List.append_assoc]
      exact ih next (last :: earlier)
    | some joined =>
      rw [Region.consJoined_consJoined_of_some hjoin]
      exact ih joined earlier

/-- Regions pushed onto nothing are joined, the last one first, without a fault. -/
theorem foldlM_push_nil (regions : List (Region family)) :
    regions.foldlM push [] = .ok (Region.coalesce regions).reverse := by
  cases regions with
  | nil => rfl
  | cons next regions =>
    rw [List.foldlM_cons]
    exact (foldlM_push_cons next [] regions).trans (by rw [List.append_nil, Region.coalesce])

/-! ## Insertions -/

/-- Inserts a region turn by turn. -/
def insert (set : IntervalSet family) (incoming : Region family) :
    Except (Fault family) (IntervalSet family) := do
  let out ← sweep incoming.action [] set.entries (some incoming.range)
  .ok { set with entries := out.reverse }

/-- Inserts regions in order. -/
def insertAll (set : IntervalSet family) (regions : List (Region family)) :
    Except (Fault family) (IntervalSet family) :=
  regions.foldlM insert set

/-- Whatever the entries are, an insertion meets no fault. -/
theorem insert_eq_ok (set : IntervalSet family) (incoming : Region family) :
    insert set incoming = .ok (set.insert incoming) := by
  rw [insert, sweep_eq_foldlM_push, foldlM_push_nil]
  change Except.ok _ = _
  rw [List.reverse_reverse]
  rfl

/-- Nor does a run of insertions meet a fault, whatever the entries are. -/
theorem insertAll_eq_ok (set : IntervalSet family) (regions : List (Region family)) :
    insertAll set regions = .ok (set.insertAll regions) := by
  induction regions generalizing set with
  | nil => rfl
  | cons region regions ih =>
    rw [insertAll, List.foldlM_cons, insert_eq_ok]
    exact ih (set.insert region)

end Guarded
end AccessList
