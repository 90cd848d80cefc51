import CoSnarks.Model.Circom.SharedInputMerge
import CoSnarks.Model.Circom.BuildFromSources

/-! # The N-ary build agrees with the pairwise merge

Whenever folding `SharedInput::merge` over a party's resolved inputs succeeds,
`build_from_sources` over the same inputs, staging nothing, returns the same result: one merge
step is one `addSource` step on an accumulator that stages nothing. The converse fails, since
the build also takes a public value that only a later source names.
-/

namespace CoSnarks.Soundness.MergeFold

open CoSnarks.Model.Core CoSnarks.Model.Circom SharedInput

variable {F U : Type} [DecidableEq F]

/-- The values of a map, each sent through `f`. -/
def mapValues {V W : Type} (f : V → W) (map : BTreeMap String V) : BTreeMap String W :=
  ⟨map.entries.map fun entry => (entry.1, f entry.2), List.pairwise_map.mpr map.sorted⟩

omit [DecidableEq F] in
@[simp] theorem get_mapValues {V W : Type} (f : V → W) (map : BTreeMap String V) (key : String) :
    (mapValues f map).get key = (map.get key).map f := by
  simp only [mapValues, BTreeMap.get]
  induction map.entries with
  | nil => rfl
  | cons entry rest ih =>
    obtain ⟨k, v⟩ := entry
    by_cases same : k = key <;> simp [same, ih]

/-- A resolved input handed to `build_from_sources` as a source: its public values, its shares
as replicated columns, and nothing staged. -/
def asSource (input : SharedInput F (Rep3PrimeFieldShare F)) : SerializeableSharedRep3Input F U :=
  ⟨input.public_inputs, .new, mapValues .replicated input.shared_inputs, .new⟩

/-- The public-input loop over entries with distinct names, each absent from the map or holding
the same values there, succeeds and adds the entries it lacks. -/
private theorem addPublicInputs_agree :
    ∀ {entries : List (String × List F)} {public_inputs : BTreeMap String (List F)},
      (entries.map Prod.fst).Nodup →
      (∀ entry ∈ entries, public_inputs.get entry.1 = none ∨
        public_inputs.get entry.1 = some entry.2) →
      ∃ result, addPublicInputs entries public_inputs = .ok result ∧
        ∀ key, result.get key = (public_inputs.get key).or (BTreeMap.lookup key entries)
  | [], public_inputs, _, _ => ⟨public_inputs, rfl, fun _ => Option.or_none.symm⟩
  | (k, v) :: rest, public_inputs, distinct, agree => by
    obtain ⟨fresh, distinct⟩ := List.nodup_cons.mp distinct
    obtain ⟨stored, later⟩ := List.forall_mem_cons.mp agree
    have keeps : ∀ entry ∈ rest, (public_inputs.insert k v).2.get entry.1 = none ∨
        (public_inputs.insert k v).2.get entry.1 = some entry.2 := fun entry member => by
      have named : k ≠ entry.1 := by
        rintro rfl
        exact fresh (List.mem_map.mpr ⟨entry, member, rfl⟩)
      simpa [named] using later entry member
    obtain ⟨result, added, holds⟩ := addPublicInputs_agree distinct keeps
    refine ⟨result, ?_, fun key => ?_⟩
    · rw [addPublicInputs, BTreeMap.insert_eq]
      rcases stored with absent | present
      · simpa only [absent] using added
      · simpa only [present, ne_eq, not_true_eq_false, if_false] using added
    · rw [holds, BTreeMap.get_insert, BTreeMap.lookup_cons]
      by_cases same : k = key
      · subst same
        rcases stored with stored | stored <;> simp [stored]
      · simp [same]

omit [DecidableEq F] in
variable (U) in
/-- The shared-input loop over replicated columns with distinct names, none of them shared yet,
succeeds and adds every column. -/
private theorem addSharedInputs_fresh :
    ∀ {entries : List (String × List (Rep3PrimeFieldShare F))}
      {shared_inputs : BTreeMap String (List (Rep3PrimeFieldShare F))},
      (entries.map Prod.fst).Nodup → (∀ entry ∈ entries, shared_inputs.get entry.1 = none) →
      ∃ result, addSharedInputs (entries.map fun entry =>
          (entry.1, (.replicated entry.2 : Rep3ShareVecType F U))) shared_inputs = .ok result ∧
        ∀ key, result.get key = (shared_inputs.get key).or (BTreeMap.lookup key entries)
  | [], shared_inputs, _, _ => ⟨shared_inputs, rfl, fun _ => Option.or_none.symm⟩
  | (k, v) :: rest, shared_inputs, distinct, absent => by
    obtain ⟨fresh, distinct⟩ := List.nodup_cons.mp distinct
    obtain ⟨unshared, later⟩ := List.forall_mem_cons.mp absent
    have keeps : ∀ entry ∈ rest, (shared_inputs.insert k v).2.get entry.1 = none :=
      fun entry member => by
        have named : k ≠ entry.1 := by
          rintro rfl
          exact fresh (List.mem_map.mpr ⟨entry, member, rfl⟩)
        simpa [named] using later entry member
    obtain ⟨result, added, holds⟩ := addSharedInputs_fresh distinct keeps
    refine ⟨result, ?_, fun key => ?_⟩
    · simpa [addSharedInputs, unshared] using added
    · rw [holds, BTreeMap.get_insert, BTreeMap.lookup_cons]
      by_cases same : k = key
      · subst same
        simp [unshared]
      · simp [same]

/-- One merge step is one `addSource` step: an accumulator that holds the merged input and
stages nothing absorbs the next input as a source exactly as `merge` absorbs it. -/
private theorem addSource_asSource {self other result : SharedInput F (Rep3PrimeFieldShare F)}
    (merged : self.merge other = .ok result) :
    addSource ⟨self, .new, .new⟩ (asSource other : SerializeableSharedRep3Input F U) =
      .ok ⟨result, .new, .new⟩ := by
  obtain ⟨shared_inputs, united, checked, rfl⟩ := merge_eq_ok.mp merged
  have present := SerializeableSharedRep3Input.checkPublicInputs_eq_ok.mp checked
  obtain ⟨succeeds, holds⟩ := SerializeableSharedRep3Input.mergeSharedInputs_spec
    self.public_inputs other.public_inputs self.shared_inputs other.shared_inputs.keys_nodup
  obtain ⟨public_inputs, added, public_get⟩ :=
    addPublicInputs_agree other.public_inputs.keys_nodup fun entry member => .inr (present entry member)
  obtain ⟨shares, shared, shared_get⟩ := addSharedInputs_fresh U
    other.shared_inputs.keys_nodup fun entry member =>
      ((BTreeMap.get_eq_none_iff ..).mpr (succeeds.mp ⟨_, united⟩ entry member).1)
  have same_public : public_inputs = self.public_inputs := BTreeMap.ext_get fun key => by
    rw [public_get]
    cases found : BTreeMap.lookup key other.public_inputs.entries with
    | none => exact Option.or_none
    | some values => simp [present _ (BTreeMap.mem_of_lookup found)]
  have same_shares : shares = shared_inputs :=
    BTreeMap.ext_get fun key => (shared_get key).trans (holds _ united key).symm
  simp only [addSource, asSource, mapValues, added, shared, same_public, same_shares,
    Except.ok_bind]
  rfl

/-- The first input fills the empty accumulator. -/
private theorem addSource_first_asSource (input : SharedInput F (Rep3PrimeFieldShare F)) :
    addSource ⟨SharedInput.default, .new, .new⟩ (asSource input : SerializeableSharedRep3Input F U) =
      .ok ⟨input, .new, .new⟩ := by
  obtain ⟨public_inputs, added, public_get⟩ :=
    addPublicInputs_agree input.public_inputs.keys_nodup fun _ _ => .inl (BTreeMap.get_new _)
  obtain ⟨shares, shared, shared_get⟩ := addSharedInputs_fresh U
    input.shared_inputs.keys_nodup fun _ _ => BTreeMap.get_new _
  have same_public : public_inputs = input.public_inputs :=
    BTreeMap.ext_get fun key => (public_get key).trans Option.none_or
  have same_shares : shares = input.shared_inputs :=
    BTreeMap.ext_get fun key => (shared_get key).trans Option.none_or
  simp only [addSource, asSource, mapValues, SharedInput.default, added, shared, same_public,
    same_shares, Except.ok_bind]
  rfl

/-- The fold of `addSource` over the inputs as sources follows the fold of `merge`. -/
theorem foldlM_asSource :
    ∀ {inputs : List (SharedInput F (Rep3PrimeFieldShare F))} {self result},
      inputs.foldlM SharedInput.merge self = .ok result →
      (inputs.map asSource : List (SerializeableSharedRep3Input F U)).foldlM addSource
        ⟨self, .new, .new⟩ = .ok ⟨result, .new, .new⟩
  | [], _, _, folded => by cases folded; rfl
  | _ :: _, _, _, folded => by
    rw [List.foldlM_cons, Except.bind_eq_ok] at folded
    obtain ⟨merged, step, rest⟩ := folded
    rw [List.map_cons, List.foldlM_cons, addSource_asSource step, Except.ok_bind]
    exact foldlM_asSource rest

/-- Whenever folding `SharedInput::merge` over a party's inputs succeeds, `build_from_sources`
over the same inputs, staging nothing, succeeds with the same result. -/
theorem buildFromSources_of_merge_fold (first : SharedInput F (Rep3PrimeFieldShare F))
    (rest : List (SharedInput F (Rep3PrimeFieldShare F))) (result : SharedInput F (Rep3PrimeFieldShare F))
    (folded : rest.foldlM SharedInput.merge first = .ok result) :
    buildFromSources ((first :: rest).map asSource : List (SerializeableSharedRep3Input F U)) =
      .ok result := by
  rw [buildFromSources, List.map_cons, List.foldlM_cons, addSource_first_asSource, Except.ok_bind,
    foldlM_asSource folded, Except.ok_bind]
  rfl

/-- A party's input with the public value `x` and the share column `a`. -/
def firstInput : SharedInput ℤ (Rep3PrimeFieldShare ℤ) :=
  ⟨(BTreeMap.new.insert "x" [5]).2, (BTreeMap.new.insert "a" [⟨1, 2⟩]).2⟩

/-- Another input of the same party, with the same public value and the share column `b`. -/
def secondInput : SharedInput ℤ (Rep3PrimeFieldShare ℤ) :=
  ⟨(BTreeMap.new.insert "x" [5]).2, (BTreeMap.new.insert "b" [⟨3, 4⟩]).2⟩

/-- The two inputs merged: the public value once, and both share columns. -/
def mergedInput : SharedInput ℤ (Rep3PrimeFieldShare ℤ) :=
  ⟨(BTreeMap.new.insert "x" [5]).2, ((BTreeMap.new.insert "a" [⟨1, 2⟩]).2.insert "b" [⟨3, 4⟩]).2⟩

theorem buildFromSources_of_merge_fold_of_two :
    [secondInput].foldlM SharedInput.merge firstInput = .ok mergedInput ∧
    buildFromSources ((firstInput :: [secondInput]).map asSource :
      List (SerializeableSharedRep3Input ℤ Unit)) = .ok mergedInput :=
  ⟨by decide, buildFromSources_of_merge_fold firstInput [secondInput] mergedInput (by decide)⟩

end CoSnarks.Soundness.MergeFold
