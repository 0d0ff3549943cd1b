/-!
# Actions

What an access list does with an address: let it through or reject it.
-/

namespace AccessList

/-- The verdict on an address. -/
inductive Action where
  /-- Let the address through. -/
  | allow
  /-- Reject the address. -/
  | deny
  deriving DecidableEq, Repr

namespace Action

/-- Without other instructions an address is let through. -/
instance : Inhabited Action := ⟨allow⟩

/-- The opposite verdict. -/
def negate : Action → Action
  | allow => deny
  | deny => allow

/-- Whether the verdict rejects. -/
def isDeny (action : Action) : Bool := action = deny

/-- The keyword of a verdict. -/
def text : Action → String
  | allow => "allow"
  | deny => "deny"

/-- Reads a keyword; only the exact lower-case words are keywords. -/
def ofText? (word : String) : Option Action :=
  if word = allow.text then some allow
  else if word = deny.text then some deny
  else none

/-- The opposite of the opposite verdict is the verdict. -/
@[simp] theorem negate_negate (action : Action) : action.negate.negate = action := by
  cases action <;> rfl

/-- The keyword of a verdict is read back. -/
@[simp] theorem ofText?_text (action : Action) : ofText? action.text = some action := by
  cases action <;> rfl

/-- A word is read as an action exactly when it is that action's keyword. -/
theorem ofText?_eq_some_iff {word : String} {action : Action} :
    ofText? word = some action ↔ word = action.text := by
  constructor
  · intro h
    unfold ofText? at h
    split at h
    · next hw => cases h; exact hw
    · split at h
      · next hw => cases h; exact hw
      · cases h
  · rintro rfl
    exact ofText?_text action

end Action
end AccessList
