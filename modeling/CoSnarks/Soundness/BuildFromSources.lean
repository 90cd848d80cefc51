import Mathlib.Data.ZMod.Defs
import CoSnarks.Model.Circom.BuildFromSources

/-! # What building from all sources guarantees, and where it falls short

A successful `build_from_sources` keeps every public value and share of every source, and
resolves each maybe-public column exactly; a maybe-shared column is resolved the same way but may
come out shorter, since its zip cuts the longer column with no length check. The proofs carry
one invariant of the accumulator, `Absorbed`, through the fold over the sources.
-/

namespace CoSnarks.Soundness.BuildFromSources

open CoSnarks.Model.Core CoSnarks.Model.Circom SharedInput

section Columns

variable {α : Type}

/-- A staged column that stands for a prefix of `column`: it is no longer, and knows every value
`column` knows at the positions it has. -/
def Keeps (column merged : List (Option α)) : Prop :=
  merged.length ≤ column.length ∧ ∀ (i : Nat) (value : α), i < merged.length →
    column[i]? = some (some value) → merged[i]? = some (some value)

/-- A staged column that stands for all of `column`: it has the same length and knows every
value `column` knows, at the same position. -/
def Covers (column merged : List (Option α)) : Prop :=
  merged.length = column.length ∧
    ∀ (i : Nat) (value : α), column[i]? = some (some value) → merged[i]? = some (some value)

theorem Keeps.refl (column : List (Option α)) : Keeps column column :=
  ⟨le_rfl, fun _ _ _ => id⟩

theorem Keeps.trans {column merged final : List (Option α)} (first : Keeps column merged)
    (second : Keeps merged final) : Keeps column final :=
  ⟨second.1.trans first.1, fun i value below known =>
    second.2 i value below (first.2 i value (lt_of_lt_of_le below second.1) known)⟩

theorem Covers.refl (column : List (Option α)) : Covers column column :=
  ⟨rfl, fun _ _ => id⟩

theorem Covers.trans {column merged final : List (Option α)} (first : Covers column merged)
    (second : Covers merged final) : Covers column final :=
  ⟨second.1.trans first.1, fun i value known => second.2 i value (first.2 i value known)⟩

/-- A kept prefix as long as the column is all of it. -/
theorem Keeps.covers {column merged : List (Option α)} (keeps : Keeps column merged)
    (length : merged.length = column.length) : Covers column merged :=
  ⟨length, fun i value known =>
    keeps.2 i value (length ▸ (List.getElem?_eq_some_iff.mp known).1) known⟩

variable [DecidableEq α]

/-- Merging two columns keeps a prefix of each, as long as the shorter, and knows no value that
neither knows. -/
private theorem mergeColumns_keeps {mine theirs merged : List (Option α)}
    (success : mergeColumns (mine.zip theirs) = .ok merged) :
    Keeps mine merged ∧ Keeps theirs merged ∧
      ∀ (i : Nat) (value : α), merged[i]? = some (some value) →
        mine[i]? = some (some value) ∨ theirs[i]? = some (some value) := by
  obtain ⟨agree, rfl⟩ := mergeColumns_eq_ok.mp success
  have pair : ∀ i, i < ((mine.zip theirs).map fun pair => pair.1.or pair.2).length →
      ∃ m t, mine[i]? = some m ∧ theirs[i]? = some t ∧ (mine.zip theirs)[i]? = some (m, t) := by
    intro i below
    simp only [List.length_map, List.length_zip] at below
    have hm := List.getElem?_eq_getElem (show i < mine.length by omega)
    have ht := List.getElem?_eq_getElem (show i < theirs.length by omega)
    exact ⟨_, _, hm, ht, List.getElem?_zip_eq_some.mpr ⟨hm, ht⟩⟩
  refine ⟨⟨by simp, fun i value below known => ?_⟩, ⟨by simp, fun i value below known => ?_⟩, ?_⟩
  · obtain ⟨m, t, hm, -, zipped⟩ := pair i below
    cases hm.symm.trans known
    rw [List.getElem?_map, zipped]
    rfl
  · obtain ⟨m, t, -, ht, zipped⟩ := pair i below
    cases ht.symm.trans known
    rw [List.getElem?_map, zipped]
    cases m with
    | none => rfl
    | some mine => rw [agree _ (List.getElem?_mem zipped) mine rfl value rfl]; rfl
  · intro i value known
    rw [List.getElem?_map, Option.map_eq_some'] at known
    obtain ⟨⟨m, t⟩, zipped, joined⟩ := known
    obtain ⟨hm, ht⟩ := List.getElem?_zip_eq_some.mp zipped
    cases m with
    | none => exact .inr (ht.trans (congrArg some joined))
    | some mine => exact .inl (hm.trans (congrArg some joined))

/-- Merging two columns of one length covers both. -/
private theorem mergeColumns_covers {mine theirs merged : List (Option α)}
    (lengths : mine.length = theirs.length) (success : mergeColumns (mine.zip theirs) = .ok merged) :
    Covers mine merged ∧ Covers theirs merged := by
  obtain ⟨keeps_mine, keeps_theirs, -⟩ := mergeColumns_keeps success
  have length : merged.length = mine.length := by
    rw [(mergeColumns_eq_ok.mp success).2]
    simp [lengths]
  exact ⟨keeps_mine.covers length, keeps_theirs.covers (length.trans lengths)⟩

end Columns

section Staging

variable {F : Type}

/-- What a staged share column becomes: a replicated column is kept as a prefix; an additive one
is never merged, so it stays as it was. -/
def Stands : MaybeRep3ShareVecType F → MaybeRep3ShareVecType F → Prop
  | .replicated column, .replicated merged => Keeps column merged
  | .replicated _, .additive _ => False
  | .additive column, staged => staged = .additive column

theorem Stands.refl : ∀ staged : MaybeRep3ShareVecType F, Stands staged staged
  | .replicated column => Keeps.refl column
  | .additive _ => rfl

theorem Stands.trans : ∀ {staged merged final : MaybeRep3ShareVecType F},
    Stands staged merged → Stands merged final → Stands staged final
  | .replicated _, .replicated _, .replicated _, first, second => Keeps.trans first second
  | .replicated _, .replicated _, .additive _, _, second => second.elim
  | .replicated _, .additive _, _, first, _ => first.elim
  | .additive _, _, _, rfl, second => second

end Staging

section Loops

variable {F U : Type} [DecidableEq F]

/-- One entry of the maybe-public loop: the column it leaves under the entry's name covers the
entry and the column staged before, and knows no value that neither knows. -/
private theorem addMaybePublicInputs_cons {key : String} {theirs : List (Option F)}
    {rest : List (String × List (Option F))}
    {maybe_publics result : BTreeMap String (List (Option F))}
    (success : addMaybePublicInputs ((key, theirs) :: rest) maybe_publics = .ok result) :
    ∃ merged, Covers theirs merged ∧
      (∀ mine, maybe_publics.get key = some mine → Covers mine merged) ∧
      (∀ (i : Nat) (value : F), merged[i]? = some (some value) → ∃ column,
        (maybe_publics.get key = some column ∨ column = theirs) ∧
          column[i]? = some (some value)) ∧
      addMaybePublicInputs rest ((maybe_publics.remove key).2.insert key merged).2 =
        .ok result := by
  rw [addMaybePublicInputs, BTreeMap.remove_eq] at success
  cases staged : maybe_publics.get key with
  | none =>
    refine ⟨theirs, .refl theirs, nofun, fun _ _ known => ⟨theirs, .inr rfl, known⟩, ?_⟩
    simpa only [staged] using success
  | some mine =>
    simp only [staged] at success
    split_ifs at success with lengths
    obtain ⟨merged, merging, success⟩ := Except.bind_eq_ok.mp success
    obtain ⟨covers_mine, covers_theirs⟩ := mergeColumns_covers (not_not.mp lengths) merging
    refine ⟨merged, covers_theirs, fun _ same => by cases same; exact covers_mine,
      fun i value known => ?_, success⟩
    rcases (mergeColumns_keeps merging).2.2 i value known with old | new
    · exact ⟨mine, .inl rfl, old⟩
    · exact ⟨theirs, .inr rfl, new⟩

/-- The maybe-public loop: every column staged before and every column read is covered by a
staged column of the result. -/
private theorem addMaybePublicInputs_covers {entries : List (String × List (Option F))}
    {maybe_publics result : BTreeMap String (List (Option F))}
    (success : addMaybePublicInputs entries maybe_publics = .ok result) :
    (∀ key column, maybe_publics.get key = some column →
      ∃ merged, result.get key = some merged ∧ Covers column merged) ∧
    ∀ entry ∈ entries, ∃ merged, result.get entry.1 = some merged ∧ Covers entry.2 merged := by
  induction entries generalizing maybe_publics with
  | nil => cases success; exact ⟨fun _ column found => ⟨column, found, .refl column⟩, nofun⟩
  | cons head rest ih =>
    obtain ⟨key, theirs⟩ := head
    obtain ⟨merged, covers_theirs, covers_old, -, success⟩ := addMaybePublicInputs_cons success
    obtain ⟨keep, later⟩ := ih success
    obtain ⟨final, found, covers⟩ := keep key merged (by simp)
    refine ⟨fun other column found' => ?_,
      List.forall_mem_cons.mpr ⟨⟨final, found, covers_theirs.trans covers⟩, later⟩⟩
    by_cases same : key = other
    · subst same
      exact ⟨final, found, (covers_old column found').trans covers⟩
    · exact keep other column (by simpa [same] using found')

/-- The maybe-public loop knows no value that was not staged before or read. -/
private theorem addMaybePublicInputs_sourced {entries : List (String × List (Option F))}
    {maybe_publics result : BTreeMap String (List (Option F))}
    (success : addMaybePublicInputs entries maybe_publics = .ok result)
    {key : String} {merged : List (Option F)} (found : result.get key = some merged)
    {i : Nat} {value : F} (known : merged[i]? = some (some value)) :
    ∃ column, (maybe_publics.get key = some column ∨ (key, column) ∈ entries) ∧
      column[i]? = some (some value) := by
  induction entries generalizing maybe_publics with
  | nil => cases success; exact ⟨merged, .inl found, known⟩
  | cons head rest ih =>
    obtain ⟨name, theirs⟩ := head
    obtain ⟨_, -, -, sourced, success⟩ := addMaybePublicInputs_cons success
    obtain ⟨column, found' | read, known'⟩ := ih success
    · by_cases same : name = key
      · subst same
        simp only [BTreeMap.get_insert_remove, if_true, Option.some.injEq] at found'
        subst found'
        obtain ⟨column, old | rfl, known''⟩ := sourced i value known'
        · exact ⟨column, .inl old, known''⟩
        · exact ⟨column, .inr (List.mem_cons_self ..), known''⟩
      · exact ⟨column, .inl (by simpa [same] using found'), known'⟩
    · exact ⟨column, .inr (List.mem_cons_of_mem _ read), known'⟩

/-- One entry of the maybe-shared loop: the column it leaves under the entry's name stands for
the entry and the column staged before, and knows no share that neither knows. -/
private theorem addMaybeSharedInputs_cons {key : String} {theirs : MaybeRep3ShareVecType F}
    {rest : List (String × MaybeRep3ShareVecType F)}
    {maybe_shared result : BTreeMap String (MaybeRep3ShareVecType F)}
    (success : addMaybeSharedInputs ((key, theirs) :: rest) maybe_shared = .ok result) :
    ∃ merged, Stands theirs merged ∧
      (∀ mine, maybe_shared.get key = some mine → Stands mine merged) ∧
      (∀ column (i : Nat) (share : Rep3PrimeFieldShare F), merged = .replicated column →
        column[i]? = some (some share) → ∃ staged,
          (maybe_shared.get key = some (.replicated staged) ∨ theirs = .replicated staged) ∧
            staged[i]? = some (some share)) ∧
      addMaybeSharedInputs rest ((maybe_shared.remove key).2.insert key merged).2 =
        .ok result := by
  rw [addMaybeSharedInputs, BTreeMap.remove_eq] at success
  cases staged : maybe_shared.get key with
  | none =>
    refine ⟨theirs, .refl theirs, nofun,
      fun column _ _ same known => ⟨column, .inr same, known⟩, ?_⟩
    simpa only [staged] using success
  | some mine =>
    simp only [staged] at success
    obtain ⟨mine⟩ | ⟨_⟩ := mine <;> obtain ⟨theirs⟩ | ⟨_⟩ := theirs <;> simp only at success
    all_goals try cases success
    obtain ⟨merged, merging, success⟩ := Except.bind_eq_ok.mp success
    obtain ⟨keeps_mine, keeps_theirs, sourced⟩ := mergeColumns_keeps merging
    refine ⟨.replicated merged, keeps_theirs, fun _ same => by cases same; exact keeps_mine,
      fun column i share same known => ?_, success⟩
    cases same
    rcases sourced i share known with old | new
    · exact ⟨mine, .inl rfl, old⟩
    · exact ⟨theirs, .inr rfl, new⟩

/-- The maybe-shared loop: every column staged before and every column read stands in a staged
column of the result. -/
private theorem addMaybeSharedInputs_stands {entries : List (String × MaybeRep3ShareVecType F)}
    {maybe_shared result : BTreeMap String (MaybeRep3ShareVecType F)}
    (success : addMaybeSharedInputs entries maybe_shared = .ok result) :
    (∀ key staged, maybe_shared.get key = some staged →
      ∃ merged, result.get key = some merged ∧ Stands staged merged) ∧
    ∀ entry ∈ entries, ∃ merged, result.get entry.1 = some merged ∧ Stands entry.2 merged := by
  induction entries generalizing maybe_shared with
  | nil => cases success; exact ⟨fun _ staged found => ⟨staged, found, .refl staged⟩, nofun⟩
  | cons head rest ih =>
    obtain ⟨key, theirs⟩ := head
    obtain ⟨merged, stands_theirs, stands_old, -, success⟩ := addMaybeSharedInputs_cons success
    obtain ⟨keep, later⟩ := ih success
    obtain ⟨final, found, stands⟩ := keep key merged (by simp)
    refine ⟨fun other staged found' => ?_,
      List.forall_mem_cons.mpr ⟨⟨final, found, stands_theirs.trans stands⟩, later⟩⟩
    by_cases same : key = other
    · subst same
      exact ⟨final, found, (stands_old staged found').trans stands⟩
    · exact keep other staged (by simpa [same] using found')

/-- The maybe-shared loop knows no share that was not staged before or read. -/
private theorem addMaybeSharedInputs_sourced {entries : List (String × MaybeRep3ShareVecType F)}
    {maybe_shared result : BTreeMap String (MaybeRep3ShareVecType F)}
    (success : addMaybeSharedInputs entries maybe_shared = .ok result)
    {key : String} {merged : List (Option (Rep3PrimeFieldShare F))}
    (found : result.get key = some (.replicated merged))
    {i : Nat} {share : Rep3PrimeFieldShare F} (known : merged[i]? = some (some share)) :
    ∃ column, (maybe_shared.get key = some (.replicated column) ∨
      (key, .replicated column) ∈ entries) ∧ column[i]? = some (some share) := by
  induction entries generalizing maybe_shared with
  | nil => cases success; exact ⟨merged, .inl found, known⟩
  | cons head rest ih =>
    obtain ⟨name, theirs⟩ := head
    obtain ⟨_, -, -, sourced, success⟩ := addMaybeSharedInputs_cons success
    obtain ⟨column, found' | read, known'⟩ := ih success
    · by_cases same : name = key
      · subst same
        simp only [BTreeMap.get_insert_remove, if_true, Option.some.injEq] at found'
        obtain ⟨column, old | rfl, known''⟩ := sourced column i share found' known'
        · exact ⟨column, .inl old, known''⟩
        · exact ⟨column, .inr (List.mem_cons_self ..), known''⟩
      · exact ⟨column, .inl (by simpa [same] using found'), known'⟩
    · exact ⟨column, .inr (List.mem_cons_of_mem _ read), known'⟩

end Loops

section Fold

variable {F U : Type} [DecidableEq F]

/-- What the accumulator owes the sources folded into it: their public values and shares, a
staged column standing for each column they stage, and no staged value that none of them
staged. -/
structure Absorbed (sources : List (SerializeableSharedRep3Input F U)) (acc : Accumulator F) :
    Prop where
  public : ∀ source ∈ sources, ∀ entry ∈ source.public_inputs.entries,
    acc.shared_input.public_inputs.get entry.1 = some entry.2
  shared : ∀ source ∈ sources, ∀ entry ∈ source.shared_inputs.entries,
    ∃ shares, entry.2 = .replicated shares ∧
      acc.shared_input.shared_inputs.get entry.1 = some shares
  staged_public : ∀ source ∈ sources, ∀ entry ∈ source.maybe_public_inputs.entries,
    ∃ merged, acc.maybe_publics.get entry.1 = some merged ∧ Covers entry.2 merged
  staged_public_sourced : ∀ key merged (i : Nat) (value : F),
    acc.maybe_publics.get key = some merged → merged[i]? = some (some value) →
      ∃ source ∈ sources, ∃ column,
        source.maybe_public_inputs.get key = some column ∧ column[i]? = some (some value)
  staged_shared : ∀ source ∈ sources, ∀ entry ∈ source.maybe_shared_inputs.entries,
    ∃ merged, acc.maybe_shared.get entry.1 = some merged ∧ Stands entry.2 merged
  staged_shared_sourced : ∀ key merged (i : Nat) (share : Rep3PrimeFieldShare F),
    acc.maybe_shared.get key = some (.replicated merged) → merged[i]? = some (some share) →
      ∃ source ∈ sources, ∃ column, source.maybe_shared_inputs.get key = some (.replicated column) ∧
        column[i]? = some (some share)

omit [DecidableEq F] in
private theorem absorbed_nil :
    Absorbed ([] : List (SerializeableSharedRep3Input F U)) ⟨SharedInput.default, .new, .new⟩ :=
  ⟨nofun, nofun, nofun, fun _ _ _ _ found => by simp at found, nofun,
    fun _ _ _ _ found => by simp at found⟩

/-- One source folded in: the four loops of its step keep what was owed and pay for it. -/
private theorem absorbed_addSource {done : List (SerializeableSharedRep3Input F U)}
    {acc next : Accumulator F} {source : SerializeableSharedRep3Input F U}
    (owed : Absorbed done acc) (success : addSource acc source = .ok next) :
    Absorbed (done ++ [source]) next := by
  simp only [addSource, Except.bind_eq_ok, Except.pure_eq_ok] at success
  obtain ⟨public_inputs, publics, shared_inputs, shares, maybe_publics, staging, maybe_shared,
    sharing, rfl⟩ := success
  obtain ⟨keep_public, new_public⟩ := addPublicInputs_spec publics
  obtain ⟨keep_shared, new_shared⟩ := addSharedInputs_spec shares
  obtain ⟨keep_staged, new_staged⟩ := addMaybePublicInputs_covers staging
  obtain ⟨keep_staged_shares, new_staged_shares⟩ := addMaybeSharedInputs_stands sharing
  refine ⟨List.forall_mem_append.mpr ⟨fun other member entry read =>
      keep_public _ _ (owed.public other member entry read), List.forall_mem_singleton.mpr new_public⟩,
    List.forall_mem_append.mpr ⟨fun other member entry read => ?_,
      List.forall_mem_singleton.mpr new_shared⟩,
    List.forall_mem_append.mpr ⟨fun other member entry read => ?_,
      List.forall_mem_singleton.mpr new_staged⟩,
    fun key merged i value found known => ?_,
    List.forall_mem_append.mpr ⟨fun other member entry read => ?_,
      List.forall_mem_singleton.mpr new_staged_shares⟩,
    fun key merged i share found known => ?_⟩
  · obtain ⟨column, scheme, found⟩ := owed.shared other member entry read
    exact ⟨column, scheme, keep_shared _ _ found⟩
  · obtain ⟨merged, found, covers⟩ := owed.staged_public other member entry read
    obtain ⟨final, found', covers'⟩ := keep_staged _ _ found
    exact ⟨final, found', covers.trans covers'⟩
  · obtain ⟨column, found' | read, known'⟩ := addMaybePublicInputs_sourced staging found known
    · obtain ⟨other, member, rest⟩ := owed.staged_public_sourced key column i value found' known'
      exact ⟨other, List.mem_append_left _ member, rest⟩
    · exact ⟨source, by simp, column, BTreeMap.get_of_mem read, known'⟩
  · obtain ⟨merged, found, stands⟩ := owed.staged_shared other member entry read
    obtain ⟨final, found', stands'⟩ := keep_staged_shares _ _ found
    exact ⟨final, found', stands.trans stands'⟩
  · obtain ⟨column, found' | read, known'⟩ := addMaybeSharedInputs_sourced sharing found known
    · obtain ⟨other, member, rest⟩ := owed.staged_shared_sourced key column i share found' known'
      exact ⟨other, List.mem_append_left _ member, rest⟩
    · exact ⟨source, by simp, column, BTreeMap.get_of_mem read, known'⟩

/-- The fold over all sources owes every source it read. -/
private theorem absorbed_foldlM {done rest : List (SerializeableSharedRep3Input F U)}
    {acc final : Accumulator F} (owed : Absorbed done acc)
    (success : rest.foldlM addSource acc = .ok final) : Absorbed (done ++ rest) final := by
  induction rest generalizing done acc with
  | nil =>
    cases success
    simpa using owed
  | cons source rest ih =>
    rw [List.foldlM_cons] at success
    obtain ⟨next, step, success⟩ := Except.bind_eq_ok.mp success
    simpa using ih (absorbed_addSource owed step) success

/-- A successful build folded every source into an accumulator whose staged columns were then
promoted into the result. -/
theorem buildFromSources_absorbed {sources : List (SerializeableSharedRep3Input F U)}
    {r : SharedInput F (Rep3PrimeFieldShare F)} (success : buildFromSources sources = .ok r) :
    ∃ acc, Absorbed sources acc ∧
      promoteMaybePublics acc.maybe_publics.entries acc.shared_input.public_inputs =
        .ok r.public_inputs ∧
      promoteMaybeShared acc.maybe_shared.entries acc.shared_input.shared_inputs =
        .ok r.shared_inputs := by
  simp only [buildFromSources, Except.bind_eq_ok, Except.pure_eq_ok] at success
  obtain ⟨acc, folded, public_inputs, publics, shared_inputs, shares, rfl⟩ := success
  exact ⟨acc, by simpa using absorbed_foldlM absorbed_nil folded, publics, shares⟩

end Fold

section Entries

/-- Two providers that share one public value and split the staged columns "x" and "m" between
them. -/
def splitColumn : List (SerializeableSharedRep3Input (ZMod 7) Unit) :=
  [{ public_inputs := (BTreeMap.new.insert "p" [1]).2
     maybe_public_inputs := (BTreeMap.new.insert "x" [some 2, none]).2
     shared_inputs := (BTreeMap.new.insert "s" (.replicated [⟨1, 2⟩])).2
     maybe_shared_inputs := (BTreeMap.new.insert "m" (.replicated [some ⟨3, 4⟩, none])).2 },
   { public_inputs := (BTreeMap.new.insert "p" [1]).2
     maybe_public_inputs := (BTreeMap.new.insert "x" [none, some 3]).2
     shared_inputs := .new
     maybe_shared_inputs := (BTreeMap.new.insert "m" (.replicated [none, some ⟨5, 6⟩])).2 }]

/-- The input built from them: "x" is public and "m" shared, both complete. -/
def splitColumnInput : SharedInput (ZMod 7) (Rep3PrimeFieldShare (ZMod 7)) :=
  ⟨((BTreeMap.new.insert "p" [1]).2.insert "x" [2, 3]).2,
    ((BTreeMap.new.insert "m" [⟨3, 4⟩, ⟨5, 6⟩]).2.insert "s" [⟨1, 2⟩]).2⟩

private theorem builds_split_column : buildFromSources splitColumn = .ok splitColumnInput := by
  decide

variable {F U : Type} [DecidableEq F] {sources : List (SerializeableSharedRep3Input F U)}
  {r : SharedInput F (Rep3PrimeFieldShare F)}

/-- A successful build keeps every public value and every share of every source; each share a
source provides is a replicated column. -/
theorem buildFromSources_keeps_entries (success : buildFromSources sources = .ok r) :
    ∀ source ∈ sources,
      (∀ entry ∈ source.public_inputs.entries, r.public_inputs.get entry.1 = some entry.2) ∧
      ∀ entry ∈ source.shared_inputs.entries,
        ∃ shares, entry.2 = .replicated shares ∧ r.shared_inputs.get entry.1 = some shares := by
  obtain ⟨acc, owed, publics, shares⟩ := buildFromSources_absorbed success
  intro source member
  refine ⟨fun entry read => (promoteMaybePublics_spec publics).1 _ _
    (owed.public source member entry read), fun entry read => ?_⟩
  obtain ⟨column, scheme, found⟩ := owed.shared source member entry read
  exact ⟨column, scheme, (promoteMaybeShared_spec shares).1 _ _ found⟩

theorem buildFromSources_keeps_entries_of_split_column :
    buildFromSources splitColumn = .ok splitColumnInput ∧
    ∀ source ∈ splitColumn,
      (∀ entry ∈ source.public_inputs.entries,
        splitColumnInput.public_inputs.get entry.1 = some entry.2) ∧
      ∀ entry ∈ source.shared_inputs.entries, ∃ shares, entry.2 = .replicated shares ∧
        splitColumnInput.shared_inputs.get entry.1 = some shares :=
  ⟨builds_split_column, buildFromSources_keeps_entries builds_split_column⟩

/-- Every column a source stages as maybe public ends public, complete and of its length, with
every value the source knows, and with no value that no source staged. -/
theorem buildFromSources_resolves_maybe_public (success : buildFromSources sources = .ok r) :
    ∀ source ∈ sources, ∀ entry ∈ source.maybe_public_inputs.entries,
      ∃ values, r.public_inputs.get entry.1 = some values ∧ values.length = entry.2.length ∧
        (∀ (i : Nat) (value : F), entry.2[i]? = some (some value) → values[i]? = some value) ∧
        ∀ (i : Nat) (value : F), values[i]? = some value → ∃ other ∈ sources, ∃ column,
          other.maybe_public_inputs.get entry.1 = some column ∧ column[i]? = some (some value) := by
  obtain ⟨acc, owed, publics, -⟩ := buildFromSources_absorbed success
  intro source member entry read
  obtain ⟨merged, found, lengths, known⟩ := owed.staged_public source member entry read
  obtain ⟨values, rfl, promoted⟩ :=
    (promoteMaybePublics_spec publics).2.1 _ (BTreeMap.mem_of_get found)
  refine ⟨values, promoted, by simpa using lengths, fun i value given => ?_, fun i value held => ?_⟩
  · simpa using known i value given
  · exact owed.staged_public_sourced _ _ i value found (by simp [held])

theorem buildFromSources_resolves_maybe_public_of_split_column :
    buildFromSources splitColumn = .ok splitColumnInput ∧
    ∀ source ∈ splitColumn, ∀ entry ∈ source.maybe_public_inputs.entries,
      ∃ values, splitColumnInput.public_inputs.get entry.1 = some values ∧
        values.length = entry.2.length ∧
        (∀ (i : Nat) (value : ZMod 7), entry.2[i]? = some (some value) →
          values[i]? = some value) ∧
        ∀ (i : Nat) (value : ZMod 7), values[i]? = some value → ∃ other ∈ splitColumn,
          ∃ column, other.maybe_public_inputs.get entry.1 = some column ∧
            column[i]? = some (some value) :=
  ⟨builds_split_column, buildFromSources_resolves_maybe_public builds_split_column⟩

/-- Every column staged as maybe shared is replicated and ends a complete share column, no longer
than the staged one, holding exactly the staged shares at the positions it keeps. -/
theorem buildFromSources_resolves_maybe_shared (success : buildFromSources sources = .ok r) :
    ∀ source ∈ sources, ∀ entry ∈ source.maybe_shared_inputs.entries,
      ∃ column shares, entry.2 = .replicated column ∧
        r.shared_inputs.get entry.1 = some shares ∧ shares.length ≤ column.length ∧
        (∀ (i : Nat) (share : Rep3PrimeFieldShare F), i < shares.length →
          column[i]? = some (some share) → shares[i]? = some share) ∧
        ∀ (i : Nat) (share : Rep3PrimeFieldShare F), shares[i]? = some share →
          ∃ other ∈ sources, ∃ column',
            other.maybe_shared_inputs.get entry.1 = some (.replicated column') ∧
              column'[i]? = some (some share) := by
  obtain ⟨acc, owed, -, promotion⟩ := buildFromSources_absorbed success
  intro source member entry read
  obtain ⟨staged, found, stands⟩ := owed.staged_shared source member entry read
  obtain ⟨shares, rfl, promoted⟩ :=
    (promoteMaybeShared_spec promotion).2.1 _ (BTreeMap.mem_of_get found)
  obtain ⟨key, column | column⟩ := entry
  · refine ⟨column, shares, rfl, promoted, by simpa using stands.1, fun i share below known => ?_,
      fun i share held => owed.staged_shared_sourced _ _ i share found (by simp [held])⟩
    simpa using stands.2 i share (by simpa using below) known
  · cases stands

theorem buildFromSources_resolves_maybe_shared_of_split_column :
    buildFromSources splitColumn = .ok splitColumnInput ∧
    ∀ source ∈ splitColumn, ∀ entry ∈ source.maybe_shared_inputs.entries,
      ∃ column shares, entry.2 = .replicated column ∧
        splitColumnInput.shared_inputs.get entry.1 = some shares ∧
        shares.length ≤ column.length ∧
        (∀ (i : Nat) (share : Rep3PrimeFieldShare (ZMod 7)), i < shares.length →
          column[i]? = some (some share) → shares[i]? = some share) ∧
        ∀ (i : Nat) (share : Rep3PrimeFieldShare (ZMod 7)), shares[i]? = some share →
          ∃ other ∈ splitColumn, ∃ column',
            other.maybe_shared_inputs.get entry.1 = some (.replicated column') ∧
              column'[i]? = some (some share) :=
  ⟨builds_split_column, buildFromSources_resolves_maybe_shared builds_split_column⟩

/-- A successful build stages no name that a source provides as final: a maybe-public name is
public in no source, and a maybe-shared name is shared in none. -/
theorem buildFromSources_stages_apart (success : buildFromSources sources = .ok r) :
    ∀ source ∈ sources, ∀ other ∈ sources,
      (∀ key ∈ source.maybe_public_inputs.keys, key ∉ other.public_inputs.keys) ∧
      ∀ key ∈ source.maybe_shared_inputs.keys, key ∉ other.shared_inputs.keys := by
  obtain ⟨acc, owed, publics, promotion⟩ := buildFromSources_absorbed success
  intro source member other member'
  constructor
  · intro key staged public
    obtain ⟨column, read⟩ := (BTreeMap.mem_keys_iff ..).mp staged
    obtain ⟨values, given⟩ := (BTreeMap.mem_keys_iff ..).mp public
    obtain ⟨merged, found, -⟩ :=
      owed.staged_public source member _ (BTreeMap.mem_of_get read)
    have fresh := (promoteMaybePublics_spec publics).2.2 _ (BTreeMap.mem_of_get found)
    simp [owed.public other member' _ (BTreeMap.mem_of_get given)] at fresh
  · intro key staged shared
    obtain ⟨column, read⟩ := (BTreeMap.mem_keys_iff ..).mp staged
    obtain ⟨scheme, given⟩ := (BTreeMap.mem_keys_iff ..).mp shared
    obtain ⟨merged, found, -⟩ :=
      owed.staged_shared source member _ (BTreeMap.mem_of_get read)
    obtain ⟨shares, -, held⟩ := owed.shared other member' _ (BTreeMap.mem_of_get given)
    have fresh := (promoteMaybeShared_spec promotion).2.2 _ (BTreeMap.mem_of_get found)
    simp [held] at fresh

theorem buildFromSources_stages_apart_of_split_column :
    buildFromSources splitColumn = .ok splitColumnInput ∧
    ∀ source ∈ splitColumn, ∀ other ∈ splitColumn,
      (∀ key ∈ source.maybe_public_inputs.keys, key ∉ other.public_inputs.keys) ∧
      ∀ key ∈ source.maybe_shared_inputs.keys, key ∉ other.shared_inputs.keys :=
  ⟨builds_split_column, buildFromSources_stages_apart builds_split_column⟩

end Entries

section Counterexamples

/-- A source staging one replicated share column under the name "k". -/
def stagingShares (column : List (Option (Rep3PrimeFieldShare (ZMod 7)))) :
    SerializeableSharedRep3Input (ZMod 7) Unit :=
  { SerializeableSharedRep3Input.default with
    maybe_shared_inputs := (BTreeMap.new.insert "k" (.replicated column)).2 }

/-- Staged share columns of two lengths are cut to the shorter one and promoted as complete. -/
theorem buildFromSources_promotes_truncated_column :
    buildFromSources [stagingShares [some ⟨1, 2⟩, some ⟨3, 4⟩], stagingShares [none]] =
      .ok ⟨.new, (BTreeMap.new.insert "k" [⟨1, 2⟩]).2⟩ := by
  decide

/-- Whether the third column is met before or after the cut decides between success and
failure. -/
theorem buildFromSources_depends_on_order :
    buildFromSources [stagingShares [some ⟨1, 2⟩, some ⟨3, 4⟩], stagingShares [none],
        stagingShares [none, some ⟨5, 6⟩]] = .ok ⟨.new, (BTreeMap.new.insert "k" [⟨1, 2⟩]).2⟩ ∧
    buildFromSources [stagingShares [some ⟨1, 2⟩, some ⟨3, 4⟩],
        stagingShares [none, some ⟨5, 6⟩], stagingShares [none]] =
      .error (.report "maybe public inputs must be same!") := by
  decide

/-- A source with one public name. -/
def publicSource : SerializeableSharedRep3Input (ZMod 7) Unit :=
  { SerializeableSharedRep3Input.default with public_inputs := (BTreeMap.new.insert "k" [1]).2 }

/-- A source sharing the same name. -/
def sharedSource : SerializeableSharedRep3Input (ZMod 7) Unit :=
  { (SerializeableSharedRep3Input.default : SerializeableSharedRep3Input (ZMod 7) Unit) with
    shared_inputs := (BTreeMap.new.insert "k" (.replicated [⟨1, 2⟩])).2 }

/-- Two sources that each keep their names apart give a name both public and shared. -/
theorem buildFromSources_public_and_shared :
    publicSource.KeyDisjoint ∧ sharedSource.KeyDisjoint ∧
    buildFromSources [publicSource, sharedSource] =
      .ok ⟨(BTreeMap.new.insert "k" [1]).2, (BTreeMap.new.insert "k" [⟨1, 2⟩]).2⟩ := by
  decide

end Counterexamples

end CoSnarks.Soundness.BuildFromSources
