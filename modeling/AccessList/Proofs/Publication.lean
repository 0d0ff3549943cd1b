import AccessList.Proofs.Reports
import AccessList.Published

/-!
# Publishing in turn

Operations on the access list in force are performed one after the other. Some of them publish
another access list, in three ways that compile differently, and the others only look. After any
operations the access list in force is the one published last, the publications were counted, and
each of them was reported with its number. What was taken from it before is what was in force then.
-/

namespace AccessList

/-- What is done with the access list in force. -/
inductive Operation where
  /-- An access list is put in force. -/
  | store (acl : Acl)
  /-- A rule list is compiled and put in force. -/
  | reload (list : RuleList)
  /-- Rules are compiled with settings and put in force. -/
  | reloadFromRules (rules : List Rule) (settings : Settings)
  /-- The access list in force is taken as it is. -/
  | load
  /-- An address is looked up. -/
  | lookup (ip : IpAddress)

/-- What an operation gives back. -/
inductive Answer where
  /-- Nothing. -/
  | done
  /-- The access list in force. -/
  | snapshot (acl : Acl)
  /-- The action for an address. -/
  | action (action : Action)

namespace Operation

/-- The access list that an operation publishes, if it publishes one. -/
def publication? : Operation → Option Acl
  | store acl => some acl
  | reload list => some list.compile.value
  | reloadFromRules rules settings => some (Acl.compile rules settings).value
  | load | lookup _ => none

/-- What is said by what an operation publishes: an access list speaks for itself, and rules are
read from the top. -/
def meaning? : Operation → Option (IpAddress → Action)
  | store acl => some acl.lookup
  | reload list => some list.lookup
  | reloadFromRules rules settings => some (FirstMatch.lookup rules settings.defaultAction)
  | load | lookup _ => none

/-- What an operation is answered where an access list is in force that says what is given. -/
def answer (acl : Acl) (said : IpAddress → Action) : Operation → Answer
  | store _ | reload _ | reloadFromRules _ _ => .done
  | load => .snapshot acl
  | lookup ip => .action (said ip)

/-- What is published says what it is meant to say. -/
theorem map_lookup_publication? (operation : Operation) :
    operation.publication?.map Acl.lookup = operation.meaning? := by
  have hcompile : ∀ rules settings, (Acl.compile rules settings).value.lookup =
      FirstMatch.lookup rules settings.defaultAction := by
    intro rules settings
    funext ip
    obtain ⟨family, a, rfl⟩ := ip.exists_eq_of
    exact Acl.lookup_compile rules settings a
  cases operation with
  | store acl => rfl
  | reload list => exact congrArg some (hcompile list.rules list.settings)
  | reloadFromRules rules settings => exact congrArg some (hcompile rules settings)
  | load => rfl
  | lookup ip => rfl

end Operation

/-- The access lists that operations publish, in order. -/
def publications (operations : List Operation) : List Acl :=
  operations.filterMap Operation.publication?

/-- The access list in force after operations: the one published last, if there is any. -/
def inForce (start : Acl) (operations : List Operation) : Acl :=
  (publications operations).getLast?.getD start

/-- What is said after operations: what is said by what was published last, if there is any. -/
def saidAfter (start : Acl) (operations : List Operation) : IpAddress → Action :=
  (operations.filterMap Operation.meaning?).getLast?.getD start.lookup

/-- An operation that publishes nothing adds no publication. -/
theorem publications_cons_of_eq_none {operation : Operation} (h : operation.publication? = none)
    (later : List Operation) : publications (operation :: later) = publications later :=
  List.filterMap_cons_none h

/-- What an operation publishes comes before what later ones publish. -/
theorem publications_cons_of_eq_some {operation : Operation} {acl : Acl}
    (h : operation.publication? = some acl) (later : List Operation) :
    publications (operation :: later) = acl :: publications later :=
  List.filterMap_cons_some h

/-- What operations in two parts publish is what the parts publish, one behind the other. -/
theorem publications_append (earlier later : List Operation) :
    publications (earlier ++ later) = publications earlier ++ publications later :=
  List.filterMap_append

/-- An operation that publishes nothing leaves in force what was in force. -/
theorem inForce_cons_of_eq_none {operation : Operation} (h : operation.publication? = none)
    (start : Acl) (later : List Operation) :
    inForce start (operation :: later) = inForce start later := by
  rw [inForce, publications_cons_of_eq_none h, inForce]

/-- What is published is in force from then on, whatever was in force before. -/
theorem inForce_cons_of_eq_some {operation : Operation} {acl : Acl}
    (h : operation.publication? = some acl) (start : Acl) (later : List Operation) :
    inForce start (operation :: later) = inForce acl later := by
  rw [inForce, publications_cons_of_eq_some h, List.getLast?_cons, Option.getD_some, inForce]

/-- The access list in force says what was published last. -/
theorem lookup_inForce (start : Acl) (operations : List Operation) :
    (inForce start operations).lookup = saidAfter start operations := by
  have hmeaning : operations.filterMap Operation.meaning? =
      (publications operations).map Acl.lookup := by
    rw [publications, List.map_filterMap]
    exact List.filterMap_congr fun operation _ => operation.map_lookup_publication?.symm
  rw [saidAfter, hmeaning, List.getLast?_map, inForce]
  cases (publications operations).getLast? <;> rfl

/-! ## Reports of publications -/

/-- The number that a publication is reported with. -/
def Event.generation? : Event → Option UInt64
  | published generation => some generation
  | _ => none

/-- Only the report of a publication has its number. -/
theorem Event.generation?_eq_some_iff {event : Event} {generation : UInt64} :
    event.generation? = some generation ↔ event = .published generation := by
  cases event <;> simp [generation?]

/-- Compiling reports no publication. One is no trace, so it would be among the notices of
compiling. -/
theorem Acl.filterMap_generation?_compile (rules : List Rule) (settings : Settings) :
    (compile rules settings).events.filterMap Event.generation? = [] := by
  refine List.filterMap_eq_nil_iff.mpr fun event hevent => ?_
  cases hgeneration : event.generation? with
  | none => rfl
  | some generation =>
    obtain rfl := Event.generation?_eq_some_iff.mp hgeneration
    have hnotice : Event.published generation ∈ (compile rules settings).notices :=
      List.mem_filter.mpr ⟨hevent, rfl⟩
    rw [notices_compile, List.mem_singleton] at hnotice
    cases hnotice

namespace Published

/-- Performs an operation. -/
def perform (published : Published) : Operation → Logged (Published × Answer)
  | .store acl => return (← published.store acl, .done)
  | .reload list => return (← published.reload list, .done)
  | .reloadFromRules rules settings => return (← published.reloadFromRules rules settings, .done)
  | .load => return (published, .snapshot published.current)
  | .lookup ip => return (published, .action (published.lookup ip))

/-- Performs operations in order, and collects what they give back. -/
def performAll (published : Published) : List Operation → Logged (Published × List Answer)
  | [] => return (published, [])
  | operation :: later => do
    let (next, answer) ← published.perform operation
    let (final, answers) ← next.performAll later
    return (final, answer :: answers)

/-! ## One operation -/

variable {operation : Operation}

/-- An operation that only looks changes and reports nothing. -/
theorem perform_of_eq_none (published : Published) (h : operation.publication? = none) :
    published.perform operation =
      ⟨(published, operation.answer published.current published.current.lookup), []⟩ := by
  cases operation with
  | store acl => cases h
  | reload list => cases h
  | reloadFromRules rules settings => cases h
  | load => rfl
  | lookup ip => rfl

/-- An operation that publishes replaces the access list, counts, and reports the count in the
end. -/
theorem perform_of_eq_some (published : Published) {acl : Acl}
    (h : operation.publication? = some acl) :
    (published.perform operation).value = (⟨acl, published.generation + 1⟩, .done) ∧
      ∃ before, before.filterMap Event.generation? = [] ∧
        (published.perform operation).events =
          before ++ [.published (published.generation + 1)] := by
  cases operation with
  | store _ =>
    obtain rfl := Option.some.inj h
    exact ⟨rfl, [], rfl, rfl⟩
  | reload list =>
    obtain rfl := Option.some.inj h
    refine ⟨rfl, .reloading list.size list.defaultAction :: list.compile.events, ?_, ?_⟩
    · exact Acl.filterMap_generation?_compile list.rules list.settings
    · simp [perform, reload, store]
  | reloadFromRules rules settings =>
    obtain rfl := Option.some.inj h
    refine ⟨rfl, (Acl.compile rules settings).events, ?_, ?_⟩
    · exact Acl.filterMap_generation?_compile rules settings
    · simp [perform, reloadFromRules, store]
  | load => cases h
  | lookup ip => cases h

/-- What an operation is told is what the access list in force says. -/
theorem answer_perform (published : Published) (operation : Operation) :
    (published.perform operation).value.2 =
      operation.answer published.current published.current.lookup := by
  cases operation <;> rfl

/-! ## Many operations -/

/-- Operations in a row hand on what is published, and what they give back is collected in order. -/
theorem value_performAll_cons (published : Published) (operation : Operation)
    (later : List Operation) :
    (published.performAll (operation :: later)).value =
      (((published.perform operation).value.1.performAll later).value.1,
        (published.perform operation).value.2 ::
          ((published.perform operation).value.1.performAll later).value.2) := rfl

/-- The reports of operations in a row stand one behind the other. -/
theorem events_performAll_cons (published : Published) (operation : Operation)
    (later : List Operation) :
    (published.performAll (operation :: later)).events =
      (published.perform operation).events ++
        ((published.perform operation).value.1.performAll later).events := by
  simp [performAll]

/-- After operations the access list published last is in force. -/
theorem current_performAll (published : Published) (operations : List Operation) :
    (published.performAll operations).value.1.current =
      inForce published.current operations := by
  induction operations generalizing published with
  | nil => rfl
  | cons operation later ih =>
    rw [value_performAll_cons, ih]
    cases h : operation.publication? with
    | none => rw [perform_of_eq_none published h, inForce_cons_of_eq_none h]
    | some acl => rw [(perform_of_eq_some published h).1, inForce_cons_of_eq_some h]

/-- Every publication is counted once, in a counter that starts over after its last number. -/
theorem generation_performAll (published : Published) (operations : List Operation) :
    (published.performAll operations).value.1.generation =
      published.generation + UInt64.ofNat (publications operations).length := by
  induction operations generalizing published with
  | nil => exact (UInt64.add_zero published.generation).symm
  | cons operation later ih =>
    rw [value_performAll_cons, ih]
    cases h : operation.publication? with
    | none => rw [perform_of_eq_none published h, publications_cons_of_eq_none h]
    | some acl =>
      rw [(perform_of_eq_some published h).1, publications_cons_of_eq_some h, List.length_cons,
        Nat.add_comm, UInt64.ofNat_add, UInt64.add_assoc]
      rfl

/-- The publications are reported with the numbers that follow, one after the other: counted from a
publication on, the later numbers are one less. -/
theorem filterMap_generation?_performAll (published : Published) (operations : List Operation) :
    (published.performAll operations).events.filterMap Event.generation? =
      (List.range' 1 (publications operations).length).map
        fun number => published.generation + UInt64.ofNat number := by
  induction operations generalizing published with
  | nil => rfl
  | cons operation later ih =>
    rw [events_performAll_cons, List.filterMap_append, ih]
    cases h : operation.publication? with
    | none =>
      rw [perform_of_eq_none published h, publications_cons_of_eq_none h, List.filterMap_nil,
        List.nil_append]
    | some acl =>
      obtain ⟨hvalue, before, hbefore, hevents⟩ := perform_of_eq_some published h
      have hlater : (List.range' (1 + 1) (publications later).length).map
          (fun number => published.generation + UInt64.ofNat number) =
          (List.range' 1 (publications later).length).map
            fun number => published.generation + 1 + UInt64.ofNat number := by
        rw [← List.map_add_range' 1, List.map_map]
        refine List.map_congr_left fun number _ => ?_
        rw [Function.comp_apply, UInt64.ofNat_add, ← UInt64.add_assoc]
        rfl
      rw [hvalue, hevents, publications_cons_of_eq_some h, List.filterMap_append, hbefore,
        List.nil_append, List.length_cons, List.range'_succ, List.map_cons, hlater]
      rfl

/-- Every operation gets its answer. -/
theorem length_answers (published : Published) (operations : List Operation) :
    (published.performAll operations).value.2.length = operations.length := by
  induction operations generalizing published with
  | nil => rfl
  | cons operation later ih => rw [value_performAll_cons, List.length_cons, ih, List.length_cons]

/-- Later operations are performed on what earlier ones leave, and answered after them. -/
theorem value_performAll_append (published : Published) (earlier later : List Operation) :
    (published.performAll (earlier ++ later)).value =
      (((published.performAll earlier).value.1.performAll later).value.1,
        (published.performAll earlier).value.2 ++
          ((published.performAll earlier).value.1.performAll later).value.2) := by
  induction earlier generalizing published with
  | nil => rfl
  | cons operation earlier ih =>
    rw [List.cons_append, value_performAll_cons, ih, value_performAll_cons, List.cons_append]

/-- An operation is answered by what was in force when it came, whatever came later. -/
theorem answer_performAll (published : Published) (before : List Operation)
    (operation : Operation) (after : List Operation) :
    (published.performAll (before ++ operation :: after)).value.2[before.length]? =
      some (operation.answer (inForce published.current before)
        (saidAfter published.current before)) := by
  have hlength := length_answers published before
  rw [value_performAll_append, List.getElem?_append_right (le_of_eq hlength), hlength, Nat.sub_self,
    value_performAll_cons, List.getElem?_cons_zero, answer_perform, current_performAll,
    lookup_inForce]

/-- The counter tells how many publications there were, if it did not start over. -/
theorem toNat_generation_performAll (start : Acl) {operations : List Operation}
    (hcount : (publications operations).length < UInt64.size) :
    (performAll ⟨start, 0⟩ operations).value.1.generation.toNat =
      (publications operations).length := by
  rw [generation_performAll, UInt64.zero_add, UInt64.toNat_ofNat_of_lt' hcount]

/-- A publication is counted as one more than there were before it. -/
theorem toNat_generation_perform (start : Acl) {before : List Operation} {acl : Acl}
    (h : operation.publication? = some acl)
    (hcount : (publications before).length + 1 < UInt64.size) :
    ((performAll ⟨start, 0⟩ before).value.1.perform operation).value.1.generation.toNat =
      (publications before).length + 1 := by
  have hlength : (publications (before ++ [operation])).length =
      (publications before).length + 1 := by
    rw [publications_append, publications_cons_of_eq_some h, List.length_append]
    rfl
  have hgeneration := toNat_generation_performAll start (hlength ▸ hcount)
  rw [value_performAll_append, hlength] at hgeneration
  exact hgeneration

/-- The publications are reported as the first, the second, and so on. -/
theorem map_toNat_reports (start : Acl) {operations : List Operation}
    (hcount : (publications operations).length < UInt64.size) :
    ((performAll ⟨start, 0⟩ operations).events.filterMap Event.generation?).map UInt64.toNat =
      List.range' 1 (publications operations).length := by
  rw [filterMap_generation?_performAll, List.map_map]
  refine (List.map_congr_left fun number hnumber => ?_).trans (List.map_id _)
  have hsize : number < UInt64.size := by
    have hle := (List.mem_range'_1.mp hnumber).2
    omega
  rw [Function.comp_apply, UInt64.zero_add, UInt64.toNat_ofNat_of_lt' hsize, id_eq]

end Published
end AccessList
