import AccessList.Proofs.FirstFault

/-!
# Rule lists one behind the other

What is read behind lines that give rules only is read as if it stood alone, but for two things: the
rules come behind those of the lines before, and lines have higher numbers. So rule lists can be put
together from parts that end with a line, and a fault in a part is the fault of the whole.
-/

namespace AccessList

/-- The same error about a line that stands further down. Only errors about lines that can be read
have a number. -/
def Error.moveDown (count : Nat) : Error → Error
  | malformed line fault => malformed (line + count) fault
  | error => error

namespace RuleList

variable {draft reached : Draft} {number : Nat}

/-! ## Lines behind lines that are read -/

/-- Behind lines that are read, the reading goes on from the draft that they lead to. -/
theorem Reads.readLines_append {lines : List (Except ReadFault (List Char))}
    (h : Reads draft lines reached) (number : Nat) (later : List (Except ReadFault (List Char))) :
    readLines number draft (lines ++ later) = readLines (number + lines.length) reached later := by
  induction h generalizing number with
  | nil draft => rfl
  | cons hwrites hadd _ ih =>
    rw [List.cons_append, readLines, ofChars_bind_add_eq_ok_iff.mpr ⟨_, hwrites, hadd⟩]
    change readLines (number + 1) _ _ = _
    rw [ih, List.length_cons, Nat.add_right_comm, Nat.add_assoc]

/-- The number of the first line matters for the numbers in errors only. -/
theorem readLines_add (count : Nat) (lines : List (Except ReadFault (List Char))) :
    readLines (number + count) draft lines =
      (readLines number draft lines).mapError (Error.moveDown count) := by
  induction lines generalizing number draft with
  | nil => rfl
  | cons line later ih =>
    cases line with
    | error fault => rfl
    | ok text =>
      rw [readLines, readLines]
      split
      · rfl
      · rw [Nat.add_right_comm]
        exact ih

/-! ## Rules that came before -/

/-- The draft behind rules that were read earlier, the last one first. -/
def Draft.behind (earlier : List Rule) (draft : Draft) : Draft :=
  { draft with rules := draft.rules ++ earlier }

/-- The list behind rules. -/
def behind (earlier : List Rule) (list : RuleList) : RuleList :=
  { list with rules := earlier ++ list.rules }

/-- The list of a draft that has earlier rules is the list of the draft behind them. -/
theorem Draft.toList_behind (earlier : List Rule) (draft : Draft) :
    (draft.behind earlier).toList = draft.toList.behind earlier.reverse := by
  rw [toList, behind, List.reverse_append]
  rfl

/-- Whether a line can be added does not depend on the rules that came before. -/
theorem Draft.add_behind (earlier : List Rule) (draft : Draft) (line : Line) :
    (draft.behind earlier).add line = (draft.add line).map (behind earlier) := by
  obtain ⟨rules, given⟩ := draft
  cases line with
  | blank => rfl
  | defaultAction action => cases given <;> rfl
  | rule rule => cases given <;> rfl

/-- Nor does it depend on them whether the text of a line can be added. -/
theorem ofChars_bind_add_behind (earlier : List Rule) (draft : Draft) (text : List Char) :
    Line.ofChars text >>= (draft.behind earlier).add =
      (Line.ofChars text >>= draft.add).map (Draft.behind earlier) := by
  cases Line.ofChars text with
  | error fault => rfl
  | ok said => exact draft.add_behind earlier said

/-- What came before the lines that are read is in front of the rules that are read. -/
theorem readLines_behind (earlier : List Rule) (lines : List (Except ReadFault (List Char))) :
    readLines number (draft.behind earlier) lines =
      (readLines number draft lines).map (behind earlier.reverse) := by
  induction lines generalizing number draft with
  | nil => exact congrArg Except.ok (draft.toList_behind earlier)
  | cons line later ih =>
    cases line with
    | error fault => rfl
    | ok text =>
      rw [readLines, readLines, ofChars_bind_add_behind]
      cases Line.ofChars text >>= draft.add with
      | error fault => rfl
      | ok next => exact ih

/-! ## Bytes behind bytes -/

/-- Behind lines that give no default action, reading goes on as from the start, but for the rules
and the number of the lines before. -/
theorem Reads.readLines_append_of_eq_none {lines : List (Except ReadFault (List Char))}
    (h : Reads {} lines reached) (hnone : reached.defaultAction = none)
    (later : List (Except ReadFault (List Char))) :
    readLines 1 {} (lines ++ later) =
      ((readLines 1 {} later).mapError (Error.moveDown lines.length)).map
        (behind reached.toList.rules) := by
  have hreached : reached = Draft.behind reached.rules {} := by
    obtain ⟨rules, given⟩ := reached
    obtain rfl : given = none := hnone
    rfl
  rw [h.readLines_append, hreached, readLines_behind, readLines_add]
  rfl

/-- Let bytes that end with a line give rules only. Whatever bytes follow, they are read as if they
stood alone: if they give a list, the list is behind the rules, and if there is an error in them, it
is the error of the whole, with a number that is higher by the number of lines before. -/
theorem ofSource_append {first : List UInt8} {list : RuleList}
    (hended : Text.IsEnded .bytes first) (hdefault : ¬ GivesDefault (Text.lines .bytes first))
    (hfirst : ofSource (.ofBytes first) = .ok list) (second : List UInt8) :
    (∀ later, ofSource (.ofBytes second) = .ok later →
      ofSource (.ofBytes (first ++ second)) =
        .ok ⟨list.rules ++ later.rules, later.defaultAction⟩) ∧
      ∀ error, ofSource (.ofBytes second) = .error error →
        ofSource (.ofBytes (first ++ second)) =
          .error (error.moveDown (Text.lines .bytes first).length) := by
  rw [ofSource_ofBytes, ofLines] at hfirst
  obtain ⟨reached, hreads, rfl⟩ := readLines_eq_ok_iff.mp hfirst
  have hnone : reached.defaultAction = none := by
    rw [givesDefault_iff] at hdefault
    rw [← Option.not_isSome_iff_eq_none, hreads.isSome_defaultAction_iff]
    simpa using hdefault
  have hall : ofSource (.ofBytes (first ++ second)) =
      ((ofSource (.ofBytes second)).mapError
        (Error.moveDown (Text.lines .bytes first).length)).map (behind reached.toList.rules) := by
    rw [ofSource_ofBytes, ofSource_ofBytes, hended.lines_append, List.map_append, ofLines,
      hreads.readLines_append_of_eq_none hnone, List.length_map, ofLines]
  constructor
  · intro later hlater
    rw [hall, hlater]
    rfl
  · intro error herror
    rw [hall, herror]
    rfl

/-- Behind two lines that give a rule, a part that can be read adds its rule and its default action.
In a part with a rule too late the third line is at fault, and behind the two lines the fifth one
is. -/
theorem ofSource_append_of_read_and_late_parts :
    let first := "deny 10.0.0.1/8\n# test\n".toUTF8.data.toList
    let read := "allow ::1\r\ndeny all".toUTF8.data.toList
    let late := "allow ::1\r\ndeny all\nallow 10.0.0.0/8".toUTF8.data.toList
    let block : Rule := ⟨.v4 ⟨.ofNat 0x0A000001, 8, by decide⟩, .deny⟩
    let host : Rule := ⟨.v6 ⟨.ofNat 1, 128, by decide⟩, .allow⟩
    ofSource (.ofBytes first) = .ok ⟨[block], .allow⟩ ∧
      ofSource (.ofBytes read) = .ok ⟨[host], .deny⟩ ∧
        ofSource (.ofBytes (first ++ read)) = .ok ⟨[block, host], .deny⟩ ∧
      ofSource (.ofBytes late) = .error (.malformed 3 .ruleAfterDefault) ∧
        ofSource (.ofBytes (first ++ late)) = .error (.malformed 5 .ruleAfterDefault) := by
  intro first read late block host
  have hfirst : ofSource (.ofBytes first) = .ok ⟨[block], .allow⟩ := rfl
  have hread : ofSource (.ofBytes read) = .ok ⟨[host], .deny⟩ := rfl
  have hlate : ofSource (.ofBytes late) = .error (.malformed 3 .ruleAfterDefault) := rfl
  have hended : Text.IsEnded .bytes first := .inr rfl
  have hdefault : ¬ GivesDefault (Text.lines .bytes first) := by
    have hlines : ∀ line ∈ Text.lines .bytes first, ∀ text ∈ Text.Utf8.decode? line,
        ((Line.ofChars text).toOption.bind Line.defaultAction?) = none := by
      decide
    rintro ⟨line, hline, text, action, hdecode, hwrites⟩
    have hnone := hlines line hline text hdecode
    rw [Line.ofChars_eq_ok_iff.mpr hwrites] at hnone
    cases hnone
  exact ⟨hfirst, hread, (ofSource_append hended hdefault hfirst read).1 _ hread, hlate,
    (ofSource_append hended hdefault hfirst late).2 _ hlate⟩

end RuleList
end AccessList
