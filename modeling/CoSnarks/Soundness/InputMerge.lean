import Mathlib.Data.ZMod.Defs
import CoSnarks.Model.Circom.SharedInputMerge

/-! # What a successful pairwise merge guarantees

`merge` checks some collisions between the four collections and leaves others to its inputs.
From inputs that keep every name in one collection, a successful merge again keeps every name
in one collection, copies `self`'s public inputs, and carries every share of either side
through unchanged: a promoted maybe-shared column never lands on an existing share, because its
name is staged on both sides and so shared on neither.
-/

namespace CoSnarks.Soundness.InputMerge

open CoSnarks.Model.Core CoSnarks.Model.Circom SerializeableSharedRep3Input

variable {F U : Type} {self other r : SerializeableSharedRep3Input F U}

/-- The share loop of a successful merge keeps both sides' shares, and adds no name but
`other`'s that `self` does not have public. -/
private theorem united_shares {shared_inputs : BTreeMap String (Rep3ShareVecType F U)}
    (merged_shared : mergeSharedInputs self.public_inputs other.public_inputs
      other.shared_inputs.entries self.shared_inputs = .ok shared_inputs) :
    (∀ key share, self.shared_inputs.get key = some share ∨
      other.shared_inputs.get key = some share → shared_inputs.get key = some share) ∧
    (∀ key ∈ shared_inputs.keys, key ∈ self.shared_inputs.keys ∨
      (key ∈ other.shared_inputs.keys ∧ key ∉ self.public_inputs.keys)) := by
  obtain ⟨succeeds, holds⟩ := mergeSharedInputs_spec self.public_inputs other.public_inputs
    self.shared_inputs other.shared_inputs.keys_nodup
  have fresh := succeeds.mp ⟨_, merged_shared⟩
  have united : ∀ key, shared_inputs.get key =
      (self.shared_inputs.get key).or (other.shared_inputs.get key) := holds _ merged_shared
  refine ⟨?_, fun key member => ?_⟩
  · rintro key share (found | found)
    · rw [united, found]; rfl
    · rwa [united, (BTreeMap.get_eq_none_iff ..).mpr (fresh _ (BTreeMap.mem_of_get found)).1,
        Option.none_or]
  · obtain ⟨share, found⟩ := (BTreeMap.mem_keys_iff ..).mp member
    cases mine : self.shared_inputs.get key with
    | some _ => exact .inl ((BTreeMap.mem_keys_iff ..).mpr ⟨_, mine⟩)
    | none =>
      rw [united, mine, Option.none_or] at found
      exact .inr ⟨(BTreeMap.mem_keys_iff ..).mpr ⟨share, found⟩,
        (fresh _ (BTreeMap.mem_of_get found)).2.1⟩

section Disjoint

variable [DecidableEq F] (mine : self.KeyDisjoint) (theirs : other.KeyDisjoint)
  (success : self.merge other = .ok r)

include mine theirs success

/-- The united shares of a successful merge hold each side's shares and no staged name, and the
maybe-shared loop settles every staged name on its own. -/
private theorem merge_staged :
    ∃ shared_inputs : BTreeMap String (Rep3ShareVecType F U),
      (∀ key share, self.shared_inputs.get key = some share ∨
        other.shared_inputs.get key = some share → shared_inputs.get key = some share) ∧
      (∀ key ∈ shared_inputs.keys, key ∈ self.shared_inputs.keys ∨
        (key ∈ other.shared_inputs.keys ∧ key ∉ self.public_inputs.keys)) ∧
      (∀ key ∈ self.maybe_shared_inputs.keys, key ∉ shared_inputs.keys) ∧
      (∀ key ∉ self.maybe_shared_inputs.keys, r.shared_inputs.get key = shared_inputs.get key ∧
        r.maybe_shared_inputs.get key = none) ∧
      (∀ key ∈ self.maybe_shared_inputs.keys, ∃ verdict,
        r.shared_inputs.get key = (place key verdict (shared_inputs, .new)).1.get key ∧
        r.maybe_shared_inputs.get key = (place key verdict (shared_inputs, .new)).2.get key) := by
  obtain ⟨-, -, lengths, -, shared_inputs, merged_shared, merged⟩ := merge_eq_ok success
  obtain ⟨kept, bounded⟩ := united_shares merged_shared
  have staged := zip_keys lengths
  have same_keys := merge_maybe_shared_keys success
  refine ⟨shared_inputs, kept, bounded, ?apart, ?frame, ?settled⟩
  case apart =>
    intro key member shared
    rcases bounded key shared with old | ⟨new, -⟩
    · exact mine.shared_maybe_shared key old member
    · exact theirs.shared_maybe_shared key new (same_keys ▸ member)
  case frame =>
    intro key absent
    have untouched := (mergeMaybeSharedInputs_spec merged).2 key (staged ▸ absent)
    exact ⟨untouched.1, untouched.2.trans (BTreeMap.get_new key)⟩
  case settled =>
    intro key member
    obtain ⟨pair, paired, rfl⟩ := List.mem_map.mp (staged ▸ member)
    obtain ⟨verdict, -, settled⟩ := mergeMaybeSharedInputs_verdict merged
      (staged ▸ BTreeMap.keys_nodup _) pair paired
    exact ⟨verdict, settled⟩

/-- Pairwise merge keeps every name in one collection, copies `self`'s public inputs, and
carries every share of either side through unchanged. -/
theorem merge_preserves_key_disjoint :
    r.KeyDisjoint ∧ r.public_inputs = self.public_inputs ∧
    (∀ key share, self.shared_inputs.get key = some share →
      r.shared_inputs.get key = some share) ∧
    (∀ key share, other.shared_inputs.get key = some share →
      r.shared_inputs.get key = some share) := by
  obtain ⟨-, maybe_public, -, public, -⟩ := merge_eq_ok success
  obtain ⟨shared_inputs, kept, bounded, apart, frame, settled⟩ := merge_staged mine theirs success
  have narrowed : ∀ key ∈ r.maybe_public_inputs.keys, key ∈ self.maybe_public_inputs.keys ∧
      key ∈ other.maybe_public_inputs.keys ∧ key ∉ self.public_inputs.keys := fun key member => by
    rcases mergeMaybePublicInputs_keys maybe_public member with fresh | ⟨named, public, staged⟩
    · simp at fresh
    · exact ⟨staged, named, public⟩
  have staged : ∀ key ∈ r.maybe_shared_inputs.keys, key ∈ self.maybe_shared_inputs.keys :=
    fun key member => by_contra fun absent =>
      (BTreeMap.get_eq_none_iff _ _).mp (frame key absent).2 member
  have united : ∀ key ∈ r.shared_inputs.keys, key ∈ self.shared_inputs.keys ∨
      (key ∈ other.shared_inputs.keys ∧ key ∉ self.public_inputs.keys) ∨
      key ∈ self.maybe_shared_inputs.keys := fun key member => by
    by_cases promoted : key ∈ self.maybe_shared_inputs.keys
    · exact .inr (.inr promoted)
    · refine (bounded key ?_).imp_right .inl
      simpa only [BTreeMap.mem_keys_iff, (frame key promoted).1] using member
  have carried : ∀ key share, shared_inputs.get key = some share →
      key ∉ self.maybe_shared_inputs.keys → r.shared_inputs.get key = some share :=
    fun key share found absent => (frame key absent).1.trans found
  refine ⟨⟨?_, ?_, ?_, ?_, ?_, ?_⟩, public, fun key share found => ?_, fun key share found => ?_⟩
  · rw [public]
    exact fun key member narrow => (narrowed key narrow).2.2 member
  · rw [public]
    intro key member shared
    rcases united key shared with old | ⟨-, fresh⟩ | promoted
    · exact mine.public_shared key member old
    · exact fresh member
    · exact mine.public_maybe_shared key member promoted
  · rw [public]
    exact fun key member narrow => mine.public_maybe_shared key member (staged key narrow)
  · intro key member shared
    obtain ⟨left, right, -⟩ := narrowed key member
    rcases united key shared with old | ⟨fresh, -⟩ | promoted
    · exact mine.maybe_public_shared key left old
    · exact theirs.maybe_public_shared key right fresh
    · exact mine.maybe_public_maybe_shared key left promoted
  · exact fun key member narrow =>
      mine.maybe_public_maybe_shared key (narrowed key member).1 (staged key narrow)
  · intro key shared narrow
    obtain ⟨verdict, first, second⟩ := settled key (staged key narrow)
    cases verdict with
    | inl column => simp [BTreeMap.mem_keys_iff, second, place] at narrow
    | inr column =>
      refine apart key (staged key narrow) ((BTreeMap.mem_keys_iff ..).mpr ?_)
      simpa [first, place] using (BTreeMap.mem_keys_iff ..).mp shared
  · exact carried key share (kept key share (.inl found))
      (mine.shared_maybe_shared key ((BTreeMap.mem_keys_iff ..).mpr ⟨share, found⟩))
  · exact carried key share (kept key share (.inr found)) fun promoted =>
      theirs.shared_maybe_shared key ((BTreeMap.mem_keys_iff ..).mpr ⟨share, found⟩)
        (merge_maybe_shared_keys success ▸ promoted)

end Disjoint

section Promotion

/-- One provider's input: a public name, a staged public column, a share, and a staged share
column known at its first position. -/
def leftInput : SerializeableSharedRep3Input (ZMod 7) Unit :=
  ⟨(BTreeMap.new.insert "p" [1]).2, (BTreeMap.new.insert "q" [some 5, none]).2,
    (BTreeMap.new.insert "a" (.replicated [⟨1, 2⟩])).2,
    (BTreeMap.new.insert "m" (.replicated [some ⟨3, 4⟩, none])).2⟩

/-- The other provider's input, filling the gaps of `leftInput`'s staged columns. -/
def rightInput : SerializeableSharedRep3Input (ZMod 7) Unit :=
  ⟨(BTreeMap.new.insert "p" [1]).2, (BTreeMap.new.insert "q" [none, some 2]).2,
    (BTreeMap.new.insert "b" (.additive [6])).2,
    (BTreeMap.new.insert "m" (.replicated [none, some ⟨5, 6⟩])).2⟩

/-- Their merge: the staged share column is complete and promoted next to both shares. -/
def mergedInput : SerializeableSharedRep3Input (ZMod 7) Unit :=
  ⟨(BTreeMap.new.insert "p" [1]).2, (BTreeMap.new.insert "q" [some 5, some 2]).2,
    (((BTreeMap.new.insert "a" (.replicated [⟨1, 2⟩])).2.insert "b" (.additive [6])).2.insert "m"
      (.replicated [⟨3, 4⟩, ⟨5, 6⟩])).2, .new⟩

theorem merge_preserves_key_disjoint_of_promotion :
    mergedInput.KeyDisjoint ∧ mergedInput.public_inputs = leftInput.public_inputs ∧
    (∀ key share, leftInput.shared_inputs.get key = some share →
      mergedInput.shared_inputs.get key = some share) ∧
    (∀ key share, rightInput.shared_inputs.get key = some share →
      mergedInput.shared_inputs.get key = some share) :=
  merge_preserves_key_disjoint (by decide) (by decide) (by decide)

end Promotion

section Settlement

/-- The combination of two staged columns over the shorter one's length: the share either side
holds at each position, else a gap. -/
def pointwise {α : Type} (mine theirs : List (Option α)) : List (Option α) :=
  (mine.zip theirs).map fun pair => pair.1.or pair.2

/-- How one staged name settles: no position is known on both sides, and the pointwise
combination goes to the shares under the column's scheme when complete, and back to staging
otherwise, where the shares hold the name only if a side already shared it. -/
def SettlesColumn {α : Type} (full : List α → Rep3ShareVecType F U)
    (staged : List (Option α) → MaybeRep3ShareVecType F)
    (self other r : SerializeableSharedRep3Input F U) (key : String)
    (mine theirs : List (Option α)) : Prop :=
  (∀ pair ∈ mine.zip theirs, pair.1 = none ∨ pair.2 = none) ∧
  (∀ values, pointwise mine theirs = values.map some →
    r.shared_inputs.get key = some (full values) ∧ key ∉ r.maybe_shared_inputs.keys) ∧
  (none ∈ pointwise mine theirs →
    r.maybe_shared_inputs.get key = some (staged (pointwise mine theirs)) ∧
    (key ∈ r.shared_inputs.keys → key ∈ self.shared_inputs.keys ∨ key ∈ other.shared_inputs.keys))

/-- Both staged columns of a name carry one scheme, and the name settles under it. -/
def SettlesStaged (self other r : SerializeableSharedRep3Input F U) (key : String) :
    MaybeRep3ShareVecType F → MaybeRep3ShareVecType F → Prop
  | .replicated mine, .replicated theirs =>
    SettlesColumn .replicated .replicated self other r key mine theirs
  | .additive mine, .additive theirs => SettlesColumn .additive .additive self other r key mine theirs
  | _, _ => False

private theorem settlesColumn_of_place {α : Type} {full : List α → Rep3ShareVecType F U}
    {staged : List (Option α) → MaybeRep3ShareVecType F} {key : String}
    {mine theirs : List (Option α)} {shared_inputs : BTreeMap String (Rep3ShareVecType F U)}
    (apart : ∀ pair ∈ mine.zip theirs, pair.1 = none ∨ pair.2 = none)
    (bounded : key ∈ shared_inputs.keys →
      key ∈ self.shared_inputs.keys ∨ key ∈ other.shared_inputs.keys)
    (first : r.shared_inputs.get key =
      (place key (settle full staged (pointwise mine theirs)) (shared_inputs, .new)).1.get key)
    (second : r.maybe_shared_inputs.get key =
      (place key (settle full staged (pointwise mine theirs)) (shared_inputs, .new)).2.get key) :
    SettlesColumn full staged self other r key mine theirs := by
  refine ⟨apart, fun values complete => ?_, fun gap => ?_⟩
  · have collected := allSome_eq_some.mpr complete
    simp only [settle, collected, place, BTreeMap.get_insert, if_true, BTreeMap.get_new] at first second
    exact ⟨first, (BTreeMap.get_eq_none_iff _ _).mp second⟩
  · have collected := allSome_eq_none.mpr gap
    simp only [settle, collected, place, BTreeMap.get_insert, if_true] at first second
    refine ⟨second, fun member => bounded ?_⟩
    rwa [BTreeMap.mem_keys_iff, ← first, ← BTreeMap.mem_keys_iff]

variable [DecidableEq F]

/-- A successful merge settles each staged name under its one scheme: the pointwise combination
over the shorter column is promoted exactly when it has no gap. -/
theorem merge_settles_staged_shares (success : self.merge other = .ok r) :
    self.maybe_shared_inputs.keys = other.maybe_shared_inputs.keys ∧
    ∀ key ∈ self.maybe_shared_inputs.keys, ∃ mine theirs,
      self.maybe_shared_inputs.get key = some mine ∧
      other.maybe_shared_inputs.get key = some theirs ∧ SettlesStaged self other r key mine theirs := by
  obtain ⟨-, -, lengths, -, shared_inputs, merged_shared, merged⟩ := merge_eq_ok success
  refine ⟨merge_maybe_shared_keys success, fun key member => ?_⟩
  obtain ⟨⟨⟨k1, mine⟩, ⟨k2, theirs⟩⟩, paired, rfl⟩ :=
    List.mem_map.mp ((zip_keys lengths).symm ▸ member)
  obtain rfl : k1 = k2 := (mergeMaybeSharedInputs_spec merged).1 _ paired
  obtain ⟨verdict, judged, first, second⟩ :=
    mergeMaybeSharedInputs_verdict merged (zip_keys lengths ▸ BTreeMap.keys_nodup _) _ paired
  have bounded : k1 ∈ shared_inputs.keys →
      k1 ∈ self.shared_inputs.keys ∨ k1 ∈ other.shared_inputs.keys := fun shared =>
    ((united_shares merged_shared).2 k1 shared).imp_right (·.1)
  refine ⟨mine, theirs, BTreeMap.get_of_mem (List.of_mem_zip paired).1,
    BTreeMap.get_of_mem (List.of_mem_zip paired).2, ?_⟩
  cases mine <;> cases theirs <;>
    simp only [mergeUnmerged, Except.map_eq_ok, mergeUnmergedColumn_eq_ok, Except.throw_ne_ok]
      at judged
  case replicated.replicated =>
    obtain ⟨_, ⟨apart, rfl⟩, rfl⟩ := judged
    exact settlesColumn_of_place apart bounded first second
  case additive.additive =>
    obtain ⟨_, ⟨apart, rfl⟩, rfl⟩ := judged
    exact settlesColumn_of_place apart bounded first second

theorem merge_settles_staged_shares_of_promotion :
    leftInput.maybe_shared_inputs.keys = rightInput.maybe_shared_inputs.keys ∧
    ∀ key ∈ leftInput.maybe_shared_inputs.keys, ∃ mine theirs,
      leftInput.maybe_shared_inputs.get key = some mine ∧
      rightInput.maybe_shared_inputs.get key = some theirs ∧
      SettlesStaged leftInput rightInput mergedInput key mine theirs :=
  merge_settles_staged_shares (by decide)

/-- An input that stages one replicated share column under the name "m". -/
def stagedShares (column : List (Option (Rep3PrimeFieldShare (ZMod 7)))) :
    SerializeableSharedRep3Input (ZMod 7) Unit :=
  { default with maybe_shared_inputs := (BTreeMap.new.insert "m" (.replicated column)).2 }

/-- Columns of two lengths merge over the shorter one, and the cut column is promoted as
complete. -/
theorem merge_promotes_truncated_column :
    (stagedShares [some ⟨1, 2⟩, some ⟨3, 4⟩]).merge (stagedShares [none]) =
      .ok { (default : SerializeableSharedRep3Input (ZMod 7) Unit) with
        shared_inputs := (BTreeMap.new.insert "m" (.replicated [⟨1, 2⟩])).2 } := by
  decide

end Settlement

section MaybePublic

/-- An input that stages one public column under the name "k". -/
def stagedPublic (column : List (Option (ZMod 7))) : SerializeableSharedRep3Input (ZMod 7) Unit :=
  { default with maybe_public_inputs := (BTreeMap.new.insert "k" column).2 }

/-- A position known on neither side is dropped by the maybe-public loop, so the merged column is
shorter and its known value moves to position 0. -/
theorem merge_drops_unknown_public_position :
    (stagedPublic [none, some 3]).merge (stagedPublic [none, none]) =
      .ok (stagedPublic [some 3]) := by
  decide

/-- Through the same dropped positions, folding three inputs in two orders gives two results. -/
theorem merge_fold_depends_on_order :
    [stagedPublic [none, none], stagedPublic [some 3, none]].foldlM merge
        (stagedPublic [none, none]) = .ok (stagedPublic []) ∧
    [stagedPublic [none, none], stagedPublic [none, none]].foldlM merge
        (stagedPublic [some 3, none]) = .ok (stagedPublic [some 3]) := by
  decide

end MaybePublic

section Resolved

variable {S : Type} [DecidableEq F] (a b : SharedInput F S)

/-- Merging two resolved inputs succeeds exactly when `b`'s share names are new to both sides and
`b`'s public values repeat `a`'s; the result keeps `a`'s public inputs and unites the shares. -/
theorem merge_unites_disjoint_shares :
    ((∃ r, a.merge b = .ok r) ↔
      (∀ key ∈ b.shared_inputs.keys, key ∉ a.shared_inputs.keys ∧ key ∉ a.public_inputs.keys ∧
        key ∉ b.public_inputs.keys) ∧
      ∀ key value, b.public_inputs.get key = some value → a.public_inputs.get key = some value) ∧
    ∀ r, a.merge b = .ok r → r.public_inputs = a.public_inputs ∧
      ∀ key, r.shared_inputs.get key = (a.shared_inputs.get key).or (b.shared_inputs.get key) := by
  obtain ⟨succeeds, holds⟩ := mergeSharedInputs_spec a.public_inputs b.public_inputs
    a.shared_inputs b.shared_inputs.keys_nodup
  have repeated : (∀ entry ∈ b.public_inputs.entries, a.public_inputs.get entry.1 = some entry.2) ↔
      ∀ key value, b.public_inputs.get key = some value → a.public_inputs.get key = some value :=
    ⟨fun agree _ _ found => agree _ (BTreeMap.mem_of_get found),
      fun agree _ member => agree _ _ (BTreeMap.get_of_mem member)⟩
  rw [BTreeMap.keys, List.forall_mem_map, ← succeeds, ← repeated, ← checkPublicInputs_eq_ok]
  refine ⟨⟨fun ⟨r, merged⟩ => ?_, fun ⟨⟨shared_inputs, looped⟩, checked⟩ => ?_⟩, fun r merged => ?_⟩
  · obtain ⟨shared_inputs, looped, checked, -⟩ := SharedInput.merge_eq_ok.mp merged
    exact ⟨⟨shared_inputs, looped⟩, checked⟩
  · exact ⟨_, SharedInput.merge_eq_ok.mpr ⟨shared_inputs, looped, checked, rfl⟩⟩
  · obtain ⟨shared_inputs, looped, -, rfl⟩ := SharedInput.merge_eq_ok.mp merged
    exact ⟨rfl, holds shared_inputs looped⟩

end Resolved

end CoSnarks.Soundness.InputMerge
