import CoSnarks.Model.Circom.Merge

/-! # Merging two resolved inputs

`SharedInput::merge` unites two resolved inputs of one party: `other`'s shares join `self`'s
under names neither side uses for a share or a public value, and `other`'s public values must be
`self`'s. Both of its loops are the ones `SerializeableSharedRep3Input::merge` runs.
-/

namespace CoSnarks.Model.Circom

open CoSnarks.Model.Core

namespace SharedInput

variable {F S : Type}

/-- `SharedInput::merge`. -/
def merge [DecidableEq F] (self other : SharedInput F S) : Except Failure (SharedInput F S) := do
  let shared_inputs ← SerializeableSharedRep3Input.mergeSharedInputs self.public_inputs
    other.public_inputs other.shared_inputs.entries self.shared_inputs
  SerializeableSharedRep3Input.checkPublicInputs self.public_inputs other.public_inputs.entries
  pure { shared_inputs, public_inputs := self.public_inputs }

/-- `merge` runs the share loop and then the public loop, and returns `self`'s public inputs
with the united shares. -/
theorem merge_eq_ok [DecidableEq F] {self other r : SharedInput F S} :
    self.merge other = .ok r ↔ ∃ shared_inputs,
      SerializeableSharedRep3Input.mergeSharedInputs self.public_inputs other.public_inputs
        other.shared_inputs.entries self.shared_inputs = .ok shared_inputs ∧
      SerializeableSharedRep3Input.checkPublicInputs self.public_inputs
        other.public_inputs.entries = .ok () ∧
      r = { shared_inputs, public_inputs := self.public_inputs } := by
  simp [merge, Except.bind_eq_ok, Except.map_eq_ok, Unique.exists_iff, @eq_comm _ r]

end SharedInput

end CoSnarks.Model.Circom
