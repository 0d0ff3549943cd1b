import AccessList.Proofs.SingleRule
import AccessList.Proofs.StrictSpelling

/-!
# Bare addresses as targets

A bare address is written strictly and a block leniently, by grammars of their own. Still an address
that is spelled strictly, in whichever of its spellings, names the block that holds it alone both
by itself and with the full length behind it.
-/

namespace AccessList

open Text (IsField HasTwoFields numeral)

/-- What is written behind an address to name the block that holds it alone. -/
def IpAddress.fullLength : IpAddress → String
  | .v4 _ => "/32"
  | .v6 _ => "/128"

/-- The full length is a slash and the width of the family. -/
theorem IpAddress.toList_fullLength_of {family : Family} (a : Address family) :
    (fullLength (.of a)).toList = '/' :: numeral 10 family.width := by
  cases family with
  | v4 =>
    change "/32".toList = _
    decide
  | v6 =>
    change "/128".toList = _
    decide

/-- With a slash and a length behind it, an address that is spelled strictly is a block. -/
theorem Block.ofChars?_slash {family : Family} {text : List Char} (block : Block family)
    (h : Address.ofChars? .strict family text = some block.address) :
    ofChars? family (text ++ '/' :: numeral 10 block.length) = some block :=
  ofChars?_eq_some_iff.mpr ⟨_, Address.read?_slash h _, block.read?_numeral_length⟩

namespace Target

variable {text : List Char} {ip : IpAddress}

/-- An address names the target that holds it alone. -/
theorem isWritten_of_address (h : IpAddress.ofChars? text = some ip) :
    IsWritten text (single ip) := by
  obtain ⟨family, a, rfl⟩ := ip.exists_eq_of
  rw [single, EitherFamily.map_of]
  exact .address (IpAddress.ofChars?_eq_some_of_iff.mp h)

/-- So does the address with the full length behind it. -/
theorem isWritten_of_fullLength (h : IpAddress.ofChars? text = some ip) :
    IsWritten (text ++ ip.fullLength.toList) (single ip) := by
  obtain ⟨family, a, rfl⟩ := ip.exists_eq_of
  have haddress := IpAddress.ofChars?_eq_some_of_iff.mp h
  rw [single, EitherFamily.map_of, IpAddress.toList_fullLength_of, ← ofChars?_eq_some_iff,
    ofChars?_eq_some_of_iff]
  exact .inl (Block.ofChars?_slash (.single a) haddress)

end Target

namespace Rule

/-- The keyword of an action and a target are a rule, whatever white space there is. -/
theorem ofText_of_isWritten {action : Action} {target : Target} {field : List Char}
    (hfield : Target.IsWritten field target) {line : String}
    (hline : HasTwoFields line.toList action.text.toList field) :
    Line.ofChars line.toList = .ok (.rule ⟨target, action⟩) ∧
      ofText line = .ok ⟨target, action⟩ := by
  have hwrites : Line.Writes line.toList (.rule ⟨target, action⟩) :=
    .fields hline (.rule action hfield)
  exact ⟨Line.ofChars_eq_ok_iff.mpr hwrites, ofText_eq_ok_iff_writes.mpr hwrites⟩

/-- Whatever text spells an address, that text and the text with the full length behind it are
fields, and on a line with an action, among a list or by itself, either one says the rule for that
address alone. -/
theorem ofText_of_bare_address {address : String} {ip : IpAddress}
    (haddress : IpAddress.ofText? address = some ip) (action : Action) :
    ∀ field ∈ [address, address ++ ip.fullLength], IsField field.toList ∧
      ∀ line : String, HasTwoFields line.toList action.text.toList field.toList →
        Line.ofChars line.toList = .ok (.rule (.ofAddress ip action)) ∧
          ofText line = .ok (.ofAddress ip action) := by
  have hwritten : ∀ field ∈ [address, address ++ ip.fullLength],
      Target.IsWritten field.toList (.single ip) := by
    rw [List.forall_mem_cons, List.forall_mem_singleton, String.toList_append]
    exact ⟨Target.isWritten_of_address haddress, Target.isWritten_of_fullLength haddress⟩
  intro field hfield
  exact ⟨(hwritten field hfield).isField, fun _ => ofText_of_isWritten (hwritten field hfield)⟩

/-- An address with a double colon for one group and with four octets at the end is spelled
strictly, and both ways to name it are read. -/
theorem ofText_of_bare_address_with_octets :
    let address := "1:2:3:4:5::10.0.0.1"
    let ip : IpAddress := .v6 (.ofNat 0x000100020003000400050000_0A000001)
    IpAddress.ofText? address = some ip ∧
      ofText "deny\t1:2:3:4:5::10.0.0.1" = .ok (.ofAddress ip .deny) ∧
      ofText "deny\t1:2:3:4:5::10.0.0.1/128" = .ok (.ofAddress ip .deny) := by
  intro address ip
  have haddress : IpAddress.ofText? address = some ip := by decide +kernel
  have hboth := ofText_of_bare_address haddress .deny
  obtain ⟨_, hbare⟩ := hboth address List.mem_cons_self
  obtain ⟨_, hfull⟩ := hboth (address ++ ip.fullLength) (List.mem_cons_of_mem _ List.mem_cons_self)
  have hline : HasTwoFields "deny\t1:2:3:4:5::10.0.0.1".toList Action.deny.text.toList
      address.toList := Text.fields_eq_pair_iff.mp (by decide +kernel)
  have hline' : HasTwoFields "deny\t1:2:3:4:5::10.0.0.1/128".toList Action.deny.text.toList
      (address ++ ip.fullLength).toList := Text.fields_eq_pair_iff.mp (by decide +kernel)
  exact ⟨haddress, (hbare _ hline).2, (hfull _ hline').2⟩

end Rule
end AccessList
