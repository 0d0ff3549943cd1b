import AccessList.Logged
import AccessList.Proofs.Decisions
import AccessList.Proofs.KeptEntries

/-!
# What an insertion fills in

A sweep looks at what remains of a range and at the next entry only. Still the gaps that it fills
in, together with what is left over in the end, are the longest parts of the range in which nothing
is decided: they hold all undecided addresses of the range, and between any two of them stands an
entry. A traced insertion reports the gaps in the same order.
-/

namespace AccessList

variable {family : Family} {action : Action}

/-! ## What a sweep lays down -/

/-- The gap that a step fills in, if it does. -/
def Step.gap? : Step family → Option (Region family)
  | .kept _ _ => none
  | .filled gap _ => some gap

namespace Sweep

variable {entries : List (Region family)} {rest : Option (Range family)} {t : Region family}

/-- The gaps that a sweep fills in, in order. -/
def gaps (course : Sweep family) : List (Region family) := course.steps.filterMap Step.gap?

/-- All that a sweep lays down with its action: the gaps, and then what is left over. -/
def laidDown (action : Action) (course : Sweep family) : List (Region family) :=
  course.gaps ++ Region.ofRange? action course.leftover

/-- Once nothing remains of the range, a sweep lays down nothing. -/
@[simp] theorem laidDown_run_none (entries : List (Region family)) :
    (run action entries none).laidDown action = [] := by
  cases entries <;> simp [run, laidDown, gaps]

/-- Behind all entries a sweep lays down what remains of the range. -/
@[simp] theorem laidDown_run_nil (rest : Option (Range family)) :
    (run action [] rest).laidDown action = Region.ofRange? action rest := by
  cases rest <;> simp [run, laidDown, gaps]

/-- A sweep that has nothing to fill in below an entry lays down nothing there. -/
theorem laidDown_run_cons_of_reached {entry : Region family} (later : List (Region family))
    (hrest : ∀ r ∈ rest, r.below? entry.range.lo = none) :
    (run action (entry :: later) rest).laidDown action =
      (run action later (rest.bind (·.above? entry.range.hi))).laidDown action := by
  cases rest with
  | none => rw [Option.bind_none, laidDown_run_none, laidDown_run_none]
  | some rest =>
    rw [run_cons_of_kept later (hrest rest rfl), Option.bind_some]
    rfl

/-- At an entry a sweep lays down what the range has below the entry, and goes on with what the
range has above it. -/
theorem laidDown_run_cons (entry : Region family) (later : List (Region family))
    (rest : Range family) :
    (run action (entry :: later) (some rest)).laidDown action =
      Region.ofRange? action (rest.below? entry.range.lo) ++
        (run action later (rest.above? entry.range.hi)).laidDown action := by
  cases hbelow : rest.below? entry.range.lo with
  | none => exact laidDown_run_cons_of_reached later fun r hr => Option.some_inj.mp hr ▸ hbelow
  | some gap =>
    have hreached := fun r hr => Range.below?_eq_none_of_above? hbelow (s := r) hr
    have hlater : (run action (entry :: later) (rest.above? gap.hi)).laidDown action =
        (run action later (rest.above? entry.range.hi)).laidDown action := by
      rw [laidDown_run_cons_of_reached later hreached,
        rest.above?_bind_above? (Range.hi_le_hi_of_below? hbelow)]
    rw [run_cons_of_filled later hbelow, ← hlater]
    rfl

/-- What a sweep lays down has its action and is a part of the range. -/
theorem of_mem_laidDown_run (ht : t ∈ (run action entries rest).laidDown action) :
    t.action = action ∧ ∃ r ∈ rest, r.contains t.range = true := by
  induction entries generalizing rest with
  | nil =>
    rw [laidDown_run_nil, Region.mem_ofRange?] at ht
    exact ⟨ht.2, t.range, ht.1, Range.contains_iff.mpr fun _ => id⟩
  | cons entry later ih =>
    cases rest with
    | none => simp at ht
    | some rest =>
      rw [laidDown_run_cons, List.mem_append, Region.mem_ofRange?] at ht
      rcases ht with ⟨hbelow, haction⟩ | ht
      · refine ⟨haction, rest, rfl, Range.contains_iff.mpr fun a ha => ?_⟩
        exact (Range.exists_mem_below?_iff.mp ⟨t.range, hbelow, ha⟩).1
      · obtain ⟨haction, r, habove, hcontains⟩ := ih ht
        refine ⟨haction, rest, rfl, Range.contains_iff.mpr fun a ha => ?_⟩
        exact (Range.exists_mem_above?_iff.mp ⟨r, habove, Range.contains_iff.mp hcontains a ha⟩).1

/-- What a sweep lays down after an entry is above the entry. -/
theorem lt_lo_of_mem_laidDown_run {r : Range family} {bound : Address family}
    (ht : t ∈ (run action entries (r.above? bound)).laidDown action) : bound < t.range.lo := by
  obtain ⟨_, s, habove, hcontains⟩ := of_mem_laidDown_run ht
  have hlo := Range.contains_iff.mp hcontains _ t.range.lo_mem
  exact (Range.exists_mem_above?_iff.mp ⟨s, habove, hlo⟩).2

/-- Between two regions that a sweep lays down there are addresses that it does not lay down, those
of an entry. -/
theorem pairwise_apart_laidDown_run (action : Action) (entries : List (Region family))
    (rest : Option (Range family)) :
    ((run action entries rest).laidDown action).Pairwise fun r s =>
      r.range.hi.toNat + 1 < s.range.lo.toNat := by
  induction entries generalizing rest with
  | nil => cases rest <;> simp
  | cons entry later ih =>
    cases rest with
    | none => simp
    | some rest =>
      rw [laidDown_run_cons, List.pairwise_append]
      refine ⟨?_, ih _, fun gap hgap t ht => ?_⟩
      · cases rest.below? entry.range.lo <;> simp
      · obtain ⟨hbelow, _⟩ := Region.mem_ofRange?.mp hgap
        have hgapEntry := (Range.exists_mem_below?_iff.mp ⟨_, hbelow, gap.range.hi_mem⟩).2
        have hentry := Address.le_def.mp entry.range.lo_le_hi
        have hentryT := lt_lo_of_mem_laidDown_run ht
        rw [Address.lt_def] at hgapEntry hentryT
        omega

/-- So what a sweep lays down is in normal form. -/
theorem isNormal_laidDown_run (action : Action) (entries : List (Region family))
    (rest : Option (Range family)) :
    Region.IsNormal ((run action entries rest).laidDown action) := by
  have hapart := pairwise_apart_laidDown_run action entries rest
  refine ⟨hapart.imp fun h => ?_, (hapart.imp fun h => ?_).isChain⟩
  · rw [Region.before_def]
    omega
  · intro hnext
    have hstep := Address.next?_eq_some_iff.mp hnext
    omega

/-- Laid under ordered entries, the regions that a sweep lays down have the addresses of the range
that no entry has. -/
theorem exists_mem_laidDown_run_iff (hord : entries.Pairwise Region.Before)
    (rest : Option (Range family)) {a : Address family} :
    (∃ t ∈ (run action entries rest).laidDown action, a ∈ t.range) ↔
      (∃ r ∈ rest, a ∈ r) ∧ ∀ entry ∈ entries, a ∉ entry.range := by
  have hpart : ∀ part : Option (Range family),
      (∃ t ∈ Region.ofRange? action part, a ∈ t.range) ↔ ∃ r ∈ part, a ∈ r := by
    intro part
    cases part <;> simp
  induction entries generalizing rest with
  | nil => simp [hpart]
  | cons entry later ih =>
    cases rest with
    | none => simp
    | some rest =>
      obtain ⟨hbefore, hord⟩ := List.pairwise_cons.mp hord
      have hsome : (∃ r ∈ some rest, a ∈ r) ↔ a ∈ rest := by simp
      simp only [laidDown_run_cons, List.mem_append, or_and_right, exists_or]
      refine (or_congr (hpart _) (ih hord _)).trans ?_
      rw [hsome, Range.exists_mem_below?_iff, Range.exists_mem_above?_iff, List.forall_mem_cons]
      constructor
      · rintro (⟨hrest, hlow⟩ | ⟨⟨hrest, hhigh⟩, hlater⟩)
        · have hle : a ≤ entry.range.hi := Nat.le_trans (Nat.le_of_lt hlow) entry.range.lo_le_hi
          exact ⟨hrest, fun hmem => Nat.not_lt.mpr hmem.1 hlow,
            fun s hs hmem => (hbefore s hs).not_lo_le hle hmem.1⟩
        · exact ⟨hrest, fun hmem => Nat.not_lt.mpr hmem.2 hhigh, hlater⟩
      · rintro ⟨hrest, hentry, hlater⟩
        rcases Nat.lt_or_ge a.toNat entry.range.lo.toNat with hlow | hlo
        · exact .inl ⟨hrest, hlow⟩
        · exact .inr ⟨⟨hrest, Nat.lt_of_not_le fun hhi => hentry ⟨hlo, hhi⟩⟩, hlater⟩

end Sweep

/-! ## The longest undecided parts -/

namespace IntervalSet

open Region (Before)

variable {set : IntervalSet family}

/-- A part of a range is undecided, and no longer part that has its addresses is. -/
structure IsLongestUndecided (set : IntervalSet family) (whole part : Range family) : Prop where
  /-- The addresses of the part are undecided ones of the range. -/
  undecided : ∀ a ∈ part, a ∈ whole ∧ ¬ set.IsDecided a
  /-- A part that has all of them is no longer. -/
  longest : ∀ other : Range family, (∀ a ∈ part, a ∈ other) →
    (∀ a ∈ other, a ∈ whole ∧ ¬ set.IsDecided a) → other = part

/-- The addresses that an insertion lays down are the undecided ones of the region. -/
theorem exists_mem_laidDown_sweep_iff (hord : set.entries.Pairwise Before)
    {incoming : Region family} {a : Address family} :
    (∃ piece ∈ (set.sweep incoming).laidDown incoming.action, a ∈ piece.range) ↔
      a ∈ incoming.range ∧ ¬ set.IsDecided a := by
  rw [sweep, Sweep.exists_mem_laidDown_run_iff hord]
  simp [IsDecided]

/-- Undecided addresses in a row are all in one of the pieces that an insertion lays down, if it has
one of them. -/
theorem contains_of_mem_laidDown_sweep (hord : set.entries.Pairwise Before)
    {incoming piece : Region family}
    (hpiece : piece ∈ (set.sweep incoming).laidDown incoming.action) {other : Range family}
    (hother : ∀ a ∈ other, a ∈ incoming.range ∧ ¬ set.IsDecided a) {a : Address family}
    (ha : a ∈ piece.range) (ha' : a ∈ other) : piece.range.contains other = true := by
  have hnormal := Sweep.isNormal_laidDown_run incoming.action set.entries (some incoming.range)
  have hanswer : ∀ b ∈ other, Region.find? ((set.sweep incoming).laidDown incoming.action) b =
      some piece.action := by
    intro b hb
    obtain ⟨t, ht, hmem⟩ := (exists_mem_laidDown_sweep_iff hord).mpr (hother b hb)
    have haction : t.action = piece.action :=
      (Sweep.of_mem_laidDown_run ht).1.trans (Sweep.of_mem_laidDown_run hpiece).1.symm
    rw [← haction]
    exact Region.find?_eq_some_of_mem hnormal.ordered ht hmem
  exact (hnormal.isRun_of_mem hpiece).contains hanswer ha ha'

/-- An insertion lays down its action on the longest undecided parts of the region, and on no
others: the piece laid down that has the first address of such a part has all of it. -/
theorem mem_laidDown_sweep_iff (hord : set.entries.Pairwise Before)
    {incoming piece : Region family} :
    piece ∈ (set.sweep incoming).laidDown incoming.action ↔
      piece.action = incoming.action ∧ set.IsLongestUndecided incoming.range piece.range := by
  have hundecided : ∀ t ∈ (set.sweep incoming).laidDown incoming.action, ∀ a ∈ t.range,
      a ∈ incoming.range ∧ ¬ set.IsDecided a :=
    fun t ht a ha => (exists_mem_laidDown_sweep_iff hord).mp ⟨t, ht, ha⟩
  constructor
  · intro hpiece
    refine ⟨(Sweep.of_mem_laidDown_run hpiece).1, hundecided piece hpiece, ?_⟩
    intro other hpart hother
    have hlo := piece.range.lo_mem
    exact Range.eq_of_contains (Range.contains_iff.mpr hpart)
      (contains_of_mem_laidDown_sweep hord hpiece hother hlo (hpart _ hlo))
  · rintro ⟨haction, hpart⟩
    have hlo := piece.range.lo_mem
    obtain ⟨t, ht, hmem⟩ := (exists_mem_laidDown_sweep_iff hord).mpr (hpart.undecided _ hlo)
    have hcontains := contains_of_mem_laidDown_sweep hord ht hpart.undecided hmem hlo
    have hrange : t.range = piece.range :=
      hpart.longest t.range (Range.contains_iff.mp hcontains) (hundecided t ht)
    have hsame : t = piece :=
      Region.ext hrange ((Sweep.of_mem_laidDown_run ht).1.trans haction.symm)
    exact hsame ▸ ht

end IntervalSet

/-! ## Reports of gaps -/

namespace Event

/-- Whether a report begins as one of a gap. -/
def isGapReport (event : Event) : Bool := "filled gap ".toList.isPrefixOf event.text.toList

/-- The report of a gap with what remained of the range. -/
def gapReport (gap : Region family) (rest : Option (Range family)) : String :=
  "filled gap " ++ gap.text ++ ", rest=" ++ restText rest

/-- Filling in a gap is reported as a gap. -/
theorem text_stepped_filled (gap : Region family) (rest : Option (Range family)) :
    (stepped (.filled gap rest)).text = gapReport gap rest := rfl

/-- The report of a gap begins as one. -/
theorem isGapReport_stepped_filled (gap : Region family) (rest : Option (Range family)) :
    (stepped (.filled gap rest)).isGapReport = true := by
  rw [isGapReport, text_stepped_filled, gapReport, String.append_assoc, String.append_assoc,
    String.toList_append]
  exact List.isPrefixOf_iff_prefix.mpr (List.prefix_append _ _)

/-- A report that begins with another letter is not one of a gap. -/
theorem isGapReport_eq_false {event : Event} {c : Char} (hc : c ≠ 'f')
    (htext : event.text.toList.head? = some c) : event.isGapReport = false := by
  rw [isGapReport, ← Bool.not_eq_true, List.isPrefixOf_iff_prefix]
  rintro ⟨more, hmore⟩
  have hhead : ("filled gap ".toList ++ more).head? = some 'f' := rfl
  rw [hmore, htext] at hhead
  exact hc (Option.some_inj.mp hhead)

/-- The report of an entry that is kept is not one of a gap. -/
theorem isGapReport_stepped_kept (entry : Region family) (rest : Option (Range family)) :
    (stepped (.kept entry rest)).isGapReport = false := by
  refine isGapReport_eq_false (show 'k' ≠ 'f' by decide) ?_
  change ("kept " ++ entry.text ++ ", rest=" ++ restText rest).toList.head? = some 'k'
  simp only [String.toList_append]
  rfl

/-- Nor is the report that an insertion begins. -/
theorem isGapReport_insertionStarted (entries : List (Region family)) (incoming : Region family) :
    (insertionStarted entries incoming).isGapReport = false := by
  refine isGapReport_eq_false (show 'i' ≠ 'f' by decide) ?_
  change ("insert start, set=[" ++ Region.listText entries ++ "], incoming=" ++
    incoming.text).toList.head? = some 'i'
  simp only [String.toList_append]
  rfl

/-- Nor is the report that an insertion is done. -/
theorem isGapReport_insertionDone (entries : List (Region family)) :
    (insertionDone entries).isGapReport = false := by
  refine isGapReport_eq_false (show 'i' ≠ 'f' by decide) ?_
  change ("insert done, set=[" ++ Region.listText entries ++ "]").toList.head? = some 'i'
  simp only [String.toList_append]
  rfl

end Event

namespace Sweep

variable {entries : List (Region family)}

/-- After a gap the sweep goes on with what the range has above it. -/
theorem eq_above?_of_filled_mem_steps {rest : Range family} {gap : Region family}
    {remaining : Option (Range family)}
    (h : .filled gap remaining ∈ (run action entries (some rest)).steps) :
    remaining = rest.above? gap.range.hi := by
  induction entries generalizing rest with
  | nil => simp [run] at h
  | cons entry later ih =>
    have hlater : ∀ beyond, rest.above? entry.range.hi = beyond →
        .filled gap remaining ∈ (run action later beyond).steps →
          remaining = rest.above? gap.range.hi := by
      intro beyond habove hstep
      cases beyond with
      | none => cases later <;> simp [run] at hstep
      | some beyond =>
        have hgap : gap ∈ (run action later (some beyond)).gaps :=
          List.mem_filterMap.mpr ⟨_, hstep, rfl⟩
        rw [← habove] at hgap
        have hlo := lt_lo_of_mem_laidDown_run (List.mem_append_left _ hgap)
        have hle := Address.le_def.mp gap.range.lo_le_hi
        rw [Address.lt_def] at hlo
        have hhi : entry.range.hi ≤ gap.range.hi := by
          rw [Address.le_def]
          omega
        rw [ih hstep, ← rest.above?_bind_above? hhi, habove, Option.bind_some]
    rw [run] at h
    cases hbelow : rest.below? entry.range.lo with
    | none =>
      simp only [hbelow, after, List.mem_cons, reduceCtorEq, false_or] at h
      exact hlater _ rfl h
    | some part =>
      cases habove : rest.above? part.hi with
      | none =>
        simp only [hbelow, habove, List.mem_singleton, Step.filled.injEq] at h
        obtain ⟨rfl, rfl⟩ := h
        exact habove.symm
      | some left =>
        simp only [hbelow, habove, after, List.mem_cons, Step.filled.injEq, reduceCtorEq,
          false_or] at h
        rcases h with ⟨rfl, rfl⟩ | h
        · exact habove.symm
        · exact hlater _ rfl h

/-- Of the reports of steps, those of gaps are the gaps in order, each with what the range has above
it. -/
theorem map_text_filter_isGapReport {steps : List (Step family)} {whole : Range family}
    (h : ∀ gap remaining, .filled gap remaining ∈ steps → remaining = whole.above? gap.range.hi) :
    ((steps.map Event.stepped).filter Event.isGapReport).map Event.text =
      (steps.filterMap Step.gap?).map fun gap =>
        Event.gapReport gap (whole.above? gap.range.hi) := by
  induction steps with
  | nil => rfl
  | cons step steps ih =>
    have hlater := ih fun gap remaining hmem => h gap remaining (List.mem_cons_of_mem _ hmem)
    cases step with
    | kept entry rest =>
      rw [List.map_cons, List.filter_cons_of_neg (by simp [Event.isGapReport_stepped_kept]), hlater,
        List.filterMap_cons_none rfl]
    | filled gap remaining =>
      obtain rfl := h gap remaining List.mem_cons_self
      have hgap : (Step.filled gap (whole.above? gap.range.hi)).gap? = some gap := rfl
      rw [List.map_cons, List.filter_cons_of_pos (Event.isGapReport_stepped_filled gap _),
        List.map_cons, hlater, List.filterMap_cons_some hgap, List.map_cons,
        Event.text_stepped_filled]

end Sweep

namespace IntervalSet

open Region (Before)

variable {set : IntervalSet family}

/-- A traced insertion reports its gaps in order, each with what the region has above it. -/
theorem map_text_filter_isGapReport_insertLogged (htraced : set.traced = true)
    (incoming : Region family) :
    ((set.insertLogged incoming).events.filter Event.isGapReport).map Event.text =
      (set.sweep incoming).gaps.map fun gap =>
        Event.gapReport gap (incoming.range.above? gap.range.hi) := by
  have hevents : (set.insertLogged incoming).events =
      [.insertionStarted set.entries incoming] ++ (set.sweep incoming).steps.map .stepped ++
        [.insertionDone (set.insert incoming).entries] := by
    rw [insertLogged, Logged.events_bind, Logged.events_reportIf, if_pos htraced,
      Logged.events_pure, List.append_nil]
    rfl
  rw [hevents, List.filter_append, List.filter_append,
    List.filter_cons_of_neg (by simp [Event.isGapReport_insertionStarted]),
    List.filter_cons_of_neg (by simp [Event.isGapReport_insertionDone]), List.filter_nil,
    List.nil_append, List.append_nil]
  exact Sweep.map_text_filter_isGapReport fun _ _ => Sweep.eq_above?_of_filled_mem_steps

/-- Whatever set insertions lead to and whatever region is inserted next, the regions that are laid
down with its action, which are the gaps that the steps fill in and what is left over of the region
in the end, are exactly the longest parts of the region in which nothing is decided. They are laid
down in order of address, and each of them once. If the set is traced, the reports of gaps name the
gaps in that order, and so all of these regions but the one that is left over. The sweep is the one
of the insertion: by the definition of `IntervalSet.insert` the new entries are its pieces, which
are the old entries with these regions between them, joined where they touch and agree, and by
`Guarded.sweep_eq_foldlM_push` the same pieces are pushed turn by turn. -/
theorem laidDown_sweep_and_reports (hset : set.Reachable) (incoming : Region family) :
    let course := set.sweep incoming
    let pieces := course.gaps ++ Region.ofRange? incoming.action course.leftover
    (∀ piece, piece ∈ pieces ↔
        piece.action = incoming.action ∧ set.IsLongestUndecided incoming.range piece.range) ∧
      pieces.Pairwise Before ∧ pieces.Nodup ∧
      (set.traced = true →
        ((set.insertLogged incoming).events.filter Event.isGapReport).map Event.text =
          course.gaps.map fun gap =>
            "filled gap " ++ gap.text ++ ", rest=" ++
              Event.restText (incoming.range.above? gap.range.hi)) := by
  intro course pieces
  have hord : pieces.Pairwise Before :=
    (Sweep.isNormal_laidDown_run incoming.action set.entries _).ordered
  exact ⟨fun _ => mem_laidDown_sweep_iff hset.isNormal.ordered, hord, hord.nodup,
    fun htraced => map_text_filter_isGapReport_insertLogged htraced incoming⟩

/-- Three single addresses with alternating actions and a denied region from the first to the last
one's neighbours: the gaps between them are filled in and reported, and the address above them is
left over. -/
theorem laidDown_sweep_around_three_entries :
    let set : IntervalSet .v4 := { IntervalSet.empty.insertAll
      [⟨.single (.ofNat 1), .allow⟩, ⟨.single (.ofNat 3), .deny⟩, ⟨.single (.ofNat 5), .allow⟩]
      with traced := true }
    let incoming : Region .v4 := ⟨⟨.ofNat 0, .ofNat 6, by decide⟩, .deny⟩
    set.Reachable ∧ set.traced = true ∧
      set.IsLongestUndecided incoming.range (.single (.ofNat 6)) ∧
      ((set.insertLogged incoming).events.filter Event.isGapReport).map Event.text =
        ["filled gap !0.0.0.0, rest=0.0.0.1-0.0.0.6", "filled gap !0.0.0.2, rest=0.0.0.3-0.0.0.6",
          "filled gap !0.0.0.4, rest=0.0.0.5-0.0.0.6"] := by
  intro set incoming
  have hset : set.Reachable := .record true (.insert _ (.insert _ (.insert _ .empty)))
  obtain ⟨hpieces, _, _, hreports⟩ := laidDown_sweep_and_reports hset incoming
  refine ⟨hset, rfl, ((hpieces ⟨.single (.ofNat 6), .deny⟩).mp (by decide)).2, ?_⟩
  rw [hreports rfl]
  decide +kernel

end IntervalSet
end AccessList
