import CoSnarks.Model.Circom.Input

/-! # Pairwise merging of provider inputs

`SerializeableSharedRep3Input::merge` combines the inputs two providers hand one party. Each
of its four loops is a function below, recursive over the entries the Rust loop iterates, and
`merge` runs them in the order of the source. Public inputs of `other` must repeat `self`'s;
maybe-public columns are merged over `other`'s keys; shares are united; maybe-shared columns
are merged position by position and promoted to the shares once no gap is left.
-/

namespace CoSnarks.Model.Circom

open CoSnarks.Model.Core

namespace SerializeableSharedRep3Input

variable {F U : Type}

/-- The public-input loop: `other`'s names must be in `public_inputs` with equal values. -/
def checkPublicInputs [DecidableEq F] (public_inputs : BTreeMap String (List F)) :
    List (String × List F) → Except Failure Unit
  | [] => pure ()
  | (key, value) :: rest =>
    match public_inputs.get key with
    | none => throw (.report s!"Public input \"{key}\" must be present in all files")
    | some mine =>
      if mine ≠ value then throw (.report s!"Public input \"{key}\" must be same in all files")
      else checkPublicInputs public_inputs rest

/-- The zip of two maybe-public columns: a position known on both sides fails, and one known
on neither is skipped by `continue`. -/
def mergeMaybePublicColumn : List (Option F × Option F) → Except Failure (List (Option F))
  | [] => pure []
  | (some _, some _) :: _ => throw (.report "Same index for maybe shared public inputs")
  | (some mine, none) :: rest => (some mine :: ·) <$> mergeMaybePublicColumn rest
  | (none, some their) :: rest => (some their :: ·) <$> mergeMaybePublicColumn rest
  | (none, none) :: rest => mergeMaybePublicColumn rest

/-- The maybe-public loop over `other`'s entries, building `maybe_merged_public_inputs`. -/
def mergeMaybePublicInputs (public_inputs : BTreeMap String (List F))
    (maybe_public_inputs : BTreeMap String (List (Option F))) :
    List (String × List (Option F)) → BTreeMap String (List (Option F)) →
      Except Failure (BTreeMap String (List (Option F)))
  | [], merged => pure merged
  | (key, theirs) :: rest, merged =>
    if public_inputs.containsKey key then
      throw (.report s!"{key} is present in public inputs and maybe public inputs")
    else match maybe_public_inputs.get key with
      | none => throw (.report s!"{key} is must be present in both maybe public inputs")
      | some mine => do
        let column ← mergeMaybePublicColumn (mine.zip theirs)
        mergeMaybePublicInputs public_inputs maybe_public_inputs rest (merged.insert key column).2

/-- The shared-input loop over `other`'s entries, the same in `SharedInput::merge`: a name may be
neither shared already nor public on either side. -/
def mergeSharedInputs {V : Type} (public_inputs other_public_inputs : BTreeMap String (List F)) :
    List (String × V) → BTreeMap String V → Except Failure (BTreeMap String V)
  | [], shared_inputs => pure shared_inputs
  | (key, value) :: rest, shared_inputs =>
    if shared_inputs.containsKey key then
      throw (.report s!"Input with name {key} present in multiple input shares")
    else if public_inputs.containsKey key || other_public_inputs.containsKey key then
      throw (.report s!"Input name is once in shared inputs and once in public inputs: \"{key}\"")
    else mergeSharedInputs public_inputs other_public_inputs rest (shared_inputs.insert key value).2

/-- The mapped zip of two maybe-shared columns, collected into a `Result`: a position known on
both sides fails, one known on neither stays absent. -/
def mergeUnmergedColumn {α : Type} (k1 : String) :
    List (Option α × Option α) → Except Failure (List (Option α))
  | [] => pure []
  | (none, none) :: rest => (none :: ·) <$> mergeUnmergedColumn k1 rest
  | (some a, none) :: rest => (some a :: ·) <$> mergeUnmergedColumn k1 rest
  | (none, some b) :: rest => (some b :: ·) <$> mergeUnmergedColumn k1 rest
  | (some _, some _) :: _ => throw (.report s!"Input {k1} present in both unmerged inputs")

/-- Where a merged maybe-shared column goes: complete, to the shares (`inl`); with a gap, back
to the staging map (`inr`). -/
def settle {α : Type} (full : List α → Rep3ShareVecType F U)
    (staged : List (Option α) → MaybeRep3ShareVecType F) (merged : List (Option α)) :
    Rep3ShareVecType F U ⊕ MaybeRep3ShareVecType F :=
  match merged.allSome with
  | some values => .inl (full values)
  | none => .inr (staged merged)

/-- The `match (v1, v2)` of the maybe-shared loop: equal schemes merge, others fail. -/
def mergeUnmerged (k1 : String) :
    MaybeRep3ShareVecType F → MaybeRep3ShareVecType F →
      Except Failure (Rep3ShareVecType F U ⊕ MaybeRep3ShareVecType F)
  | .replicated shares, .replicated other_shares =>
    settle .replicated .replicated <$> mergeUnmergedColumn k1 (shares.zip other_shares)
  | .additive shares, .additive other_shares =>
    settle .additive .additive <$> mergeUnmergedColumn k1 (shares.zip other_shares)
  | _, _ => throw (.report s!"Input {k1} cannot be merged, the share type is different")

/-- The two maps a verdict goes to: the shares, and the maps of columns still staged. -/
abbrev Verdicts (F U : Type) :=
  BTreeMap String (Rep3ShareVecType F U) × BTreeMap String (MaybeRep3ShareVecType F)

/-- The `if let` of the maybe-shared loop: a complete column is inserted into the shares, a
gapped one into `merged_maybe_shared_inputs`. -/
def place (key : String) : Rep3ShareVecType F U ⊕ MaybeRep3ShareVecType F → Verdicts F U →
    Verdicts F U
  | .inl column, (shared_inputs, merged) => ((shared_inputs.insert key column).2, merged)
  | .inr column, (shared_inputs, merged) => (shared_inputs, (merged.insert key column).2)

/-- The maybe-shared loop over the zipped entries of both maps, in key order. -/
def mergeMaybeSharedInputs :
    List ((String × MaybeRep3ShareVecType F) × (String × MaybeRep3ShareVecType F)) →
      Verdicts F U → Except Failure (Verdicts F U)
  | [], maps => pure maps
  | ((k1, v1), (k2, v2)) :: rest, maps =>
    if k1 ≠ k2 then
      throw (.report "Both inputs must have the same keys for unmerged elements")
    else do
      let verdict ← mergeUnmerged k1 v1 v2
      mergeMaybeSharedInputs rest (place k1 verdict maps)

/-- `SerializeableSharedRep3Input::merge`. -/
def merge [DecidableEq F] (self other : SerializeableSharedRep3Input F U) :
    Except Failure (SerializeableSharedRep3Input F U) := do
  checkPublicInputs self.public_inputs other.public_inputs.entries
  let maybe_merged_public_inputs ← mergeMaybePublicInputs self.public_inputs
    self.maybe_public_inputs other.maybe_public_inputs.entries .new
  let shared_inputs ← mergeSharedInputs self.public_inputs other.public_inputs
    other.shared_inputs.entries self.shared_inputs
  if self.maybe_shared_inputs.len ≠ other.maybe_shared_inputs.len then
    throw (.report "Both inputs must have the same number of unmerged entries")
  let (shared_inputs, merged_maybe_shared_inputs) ← mergeMaybeSharedInputs
    (self.maybe_shared_inputs.entries.zip other.maybe_shared_inputs.entries) (shared_inputs, .new)
  pure { public_inputs := self.public_inputs
         maybe_public_inputs := maybe_merged_public_inputs
         shared_inputs
         maybe_shared_inputs := merged_maybe_shared_inputs }

/-! ## One specification per loop -/

theorem checkPublicInputs_eq_ok [DecidableEq F] {public_inputs : BTreeMap String (List F)}
    {entries : List (String × List F)} :
    checkPublicInputs public_inputs entries = .ok () ↔
      ∀ entry ∈ entries, public_inputs.get entry.1 = some entry.2 := by
  induction entries with
  | nil => exact iff_of_true rfl nofun
  | cons head rest ih =>
    obtain ⟨key, value⟩ := head
    simp only [checkPublicInputs, List.forall_mem_cons]
    cases found : public_inputs.get key with
    | none => simp
    | some mine => by_cases same : mine = value <;> simp [same, ih]

/-- One position of the mapped zip: a position known on both sides fails, and otherwise keeps
whichever value it holds. -/
theorem mergeUnmergedColumn_cons {α : Type} {k1 : String} (mine theirs : Option α)
    (rest : List (Option α × Option α)) {merged : List (Option α)} :
    mergeUnmergedColumn k1 ((mine, theirs) :: rest) = .ok merged ↔
      (mine = none ∨ theirs = none) ∧
        ∃ tail, mergeUnmergedColumn k1 rest = .ok tail ∧ merged = mine.or theirs :: tail := by
  cases mine <;> cases theirs <;> simp [mergeUnmergedColumn, Except.map_eq_ok, @eq_comm _ merged]

/-- The mapped zip of two maybe-shared columns succeeds exactly when no position is known on
both sides, and then keeps whichever side knows each position. -/
theorem mergeUnmergedColumn_eq_ok {α : Type} {k1 : String} {pairs : List (Option α × Option α)}
    {merged : List (Option α)} :
    mergeUnmergedColumn k1 pairs = .ok merged ↔
      (∀ pair ∈ pairs, pair.1 = none ∨ pair.2 = none) ∧
        merged = pairs.map fun pair => pair.1.or pair.2 := by
  induction pairs generalizing merged with
  | nil => simp [mergeUnmergedColumn, pure, Except.pure, eq_comm]
  | cons head rest ih =>
    obtain ⟨mine, theirs⟩ := head
    simp only [mergeUnmergedColumn_cons, ih, List.forall_mem_cons, List.map_cons]
    constructor
    · rintro ⟨apart, _, ⟨apart', rfl⟩, rfl⟩
      exact ⟨⟨apart, apart'⟩, rfl⟩
    · rintro ⟨⟨apart, apart'⟩, rfl⟩
      exact ⟨apart, _, ⟨apart', rfl⟩, rfl⟩

/-- Every staged maybe-public name of the result was staged on both sides and is not public. -/
theorem mergeMaybePublicInputs_keys {public_inputs : BTreeMap String (List F)}
    {maybe_public_inputs merged result : BTreeMap String (List (Option F))}
    {entries : List (String × List (Option F))}
    (success : mergeMaybePublicInputs public_inputs maybe_public_inputs entries merged = .ok result)
    {key : String} (member : key ∈ result.keys) :
    key ∈ merged.keys ∨ (key ∈ entries.map Prod.fst ∧ key ∉ public_inputs.keys ∧
      key ∈ maybe_public_inputs.keys) := by
  induction entries generalizing merged with
  | nil => exact .inl (by cases success; exact member)
  | cons head rest ih =>
    obtain ⟨name, theirs⟩ := head
    simp only [mergeMaybePublicInputs, BTreeMap.containsKey_iff_mem] at success
    by_cases public : name ∈ public_inputs.keys
    · simp [public] at success
    rw [if_neg public] at success
    cases staged : maybe_public_inputs.get name with
    | none => simp [staged] at success
    | some mine =>
      rw [staged] at success
      obtain ⟨column, -, tail⟩ := Except.bind_eq_ok.mp success
      rcases ih tail with inserted | later
      · rcases (BTreeMap.mem_keys_insert ..).mp inserted with rfl | old
        · refine .inr ⟨List.mem_cons_self _ _, ?_, ?_⟩
          · exact public
          · exact (BTreeMap.mem_keys_iff ..).mpr ⟨mine, staged⟩
        · exact .inl old
      · exact .inr ⟨List.mem_cons_of_mem _ later.1, later.2⟩

/-- The shared-input loop over distinct names succeeds exactly when no name is shared already or
public on either side, and then holds each entry under its name and every other share as it
was. -/
theorem mergeSharedInputs_spec {V : Type}
    (public_inputs other_public_inputs : BTreeMap String (List F))
    (shared_inputs : BTreeMap String V) {entries : List (String × V)}
    (distinct : (entries.map Prod.fst).Nodup) :
    ((∃ result,
        mergeSharedInputs public_inputs other_public_inputs entries shared_inputs = .ok result) ↔
      ∀ entry ∈ entries, entry.1 ∉ shared_inputs.keys ∧ entry.1 ∉ public_inputs.keys ∧
        entry.1 ∉ other_public_inputs.keys) ∧
    ∀ result, mergeSharedInputs public_inputs other_public_inputs entries shared_inputs =
      .ok result →
        ∀ key, result.get key = (shared_inputs.get key).or (BTreeMap.lookup key entries) := by
  induction entries generalizing shared_inputs with
  | nil =>
    refine ⟨iff_of_true ⟨_, rfl⟩ nofun, fun result merged key => ?_⟩
    cases merged
    simp
  | cons head rest ih =>
    obtain ⟨key, value⟩ := head
    obtain ⟨fresh, distinct⟩ := List.nodup_cons.mp distinct
    by_cases taken : key ∈ shared_inputs.keys
    · simp [mergeSharedInputs, taken]
    by_cases public : key ∈ public_inputs.keys
    · simp [mergeSharedInputs, taken, public]
    by_cases other_public : key ∈ other_public_inputs.keys
    · simp [mergeSharedInputs, taken, public, other_public]
    have step : mergeSharedInputs public_inputs other_public_inputs ((key, value) :: rest)
        shared_inputs = mergeSharedInputs public_inputs other_public_inputs rest
          (shared_inputs.insert key value).2 := by
      simp [mergeSharedInputs, taken, public, other_public]
    obtain ⟨succeeds, holds⟩ := ih _ distinct
    rw [step]
    refine ⟨?_, fun result merged other => ?_⟩
    · rw [succeeds]
      simp only [List.forall_mem_cons, taken, public, other_public, not_false_eq_true,
        and_self, true_and]
      refine forall_congr' fun entry => imp_congr_right fun member => ?_
      have named : key ≠ entry.1 := by
        rintro rfl
        exact fresh (List.mem_map_of_mem Prod.fst member :)
      simp [named]
    · rw [holds result merged other, BTreeMap.get_insert, BTreeMap.lookup_cons]
      split_ifs with same
      · subst same
        simp [(BTreeMap.get_eq_none_iff ..).mpr taken]
      · rfl

theorem place_get_of_ne {key other : String} (distinct : key ≠ other)
    (verdict : Rep3ShareVecType F U ⊕ MaybeRep3ShareVecType F) (maps : Verdicts F U) :
    (place key verdict maps).1.get other = maps.1.get other ∧
      (place key verdict maps).2.get other = maps.2.get other := by
  obtain ⟨shared_inputs, merged⟩ := maps
  cases verdict <;> simp [place, distinct]

/-- Under its own key, a placed verdict depends on the maps only at that key. -/
theorem place_congr {key : String} (verdict : Rep3ShareVecType F U ⊕ MaybeRep3ShareVecType F)
    {maps other : Verdicts F U} (first : maps.1.get key = other.1.get key)
    (second : maps.2.get key = other.2.get key) :
    (place key verdict maps).1.get key = (place key verdict other).1.get key ∧
      (place key verdict maps).2.get key = (place key verdict other).2.get key := by
  obtain ⟨shared_inputs, merged⟩ := maps
  obtain ⟨shared_inputs', merged'⟩ := other
  cases verdict <;> simp_all [place]

/-- The maybe-shared loop pairs equal names and leaves every other name alone. -/
theorem mergeMaybeSharedInputs_spec
    {pairs : List ((String × MaybeRep3ShareVecType F) × (String × MaybeRep3ShareVecType F))}
    {maps result : Verdicts F U} (success : mergeMaybeSharedInputs pairs maps = .ok result) :
    (∀ pair ∈ pairs, pair.1.1 = pair.2.1) ∧
    (∀ key ∉ pairs.map (·.1.1), result.1.get key = maps.1.get key ∧
      result.2.get key = maps.2.get key) := by
  induction pairs generalizing maps with
  | nil => cases success; exact ⟨nofun, fun _ _ => ⟨rfl, rfl⟩⟩
  | cons head rest ih =>
    obtain ⟨⟨k1, v1⟩, ⟨k2, v2⟩⟩ := head
    simp only [mergeMaybeSharedInputs] at success
    by_cases differ : k1 ≠ k2
    · simp [differ] at success
    rw [if_neg differ] at success
    obtain ⟨verdict, -, tail⟩ := Except.bind_eq_ok.mp success
    obtain ⟨same, frame⟩ := ih tail
    refine ⟨List.forall_mem_cons.mpr ⟨not_not.mp differ, same⟩, fun key absent => ?_⟩
    simp only [List.map_cons, List.mem_cons, not_or] at absent
    rw [(frame key absent.2).1, (frame key absent.2).2]
    exact place_get_of_ne (Ne.symm absent.1) verdict maps

/-- With distinct names, each pair's column ends up where its own verdict places it. -/
theorem mergeMaybeSharedInputs_verdict
    {pairs : List ((String × MaybeRep3ShareVecType F) × (String × MaybeRep3ShareVecType F))}
    {maps result : Verdicts F U} (success : mergeMaybeSharedInputs pairs maps = .ok result)
    (distinct : (pairs.map (·.1.1)).Nodup) :
    ∀ pair ∈ pairs, ∃ verdict, mergeUnmerged pair.1.1 pair.1.2 pair.2.2 = .ok verdict ∧
      result.1.get pair.1.1 = (place pair.1.1 verdict maps).1.get pair.1.1 ∧
      result.2.get pair.1.1 = (place pair.1.1 verdict maps).2.get pair.1.1 := by
  induction pairs generalizing maps with
  | nil => nofun
  | cons head rest ih =>
    obtain ⟨⟨k1, v1⟩, ⟨k2, v2⟩⟩ := head
    rw [List.map_cons, List.nodup_cons] at distinct
    simp only [mergeMaybeSharedInputs] at success
    by_cases differ : k1 ≠ k2
    · simp [differ] at success
    rw [if_neg differ] at success
    obtain ⟨verdict, judged, tail⟩ := Except.bind_eq_ok.mp success
    refine List.forall_mem_cons.mpr
      ⟨⟨verdict, judged, (mergeMaybeSharedInputs_spec tail).2 k1 distinct.1⟩, fun pair member => ?_⟩
    obtain ⟨later, judged', first, second⟩ := ih tail distinct.2 pair member
    have apart : k1 ≠ pair.1.1 := fun same =>
      distinct.1 (same ▸ List.mem_map_of_mem (fun pair => pair.1.1) member)
    obtain ⟨unchanged, unchanged'⟩ := place_get_of_ne apart verdict maps
    obtain ⟨agree, agree'⟩ := place_congr later unchanged unchanged'
    exact ⟨later, judged', first.trans agree, second.trans agree'⟩

/-- Names zipped pairwise equal along lists of one length are the same names. -/
theorem map_fst_eq_of_zip {α : Type} {mine theirs : List (String × α)}
    (length : mine.length = theirs.length) (same : ∀ pair ∈ mine.zip theirs, pair.1.1 = pair.2.1) :
    mine.map Prod.fst = theirs.map Prod.fst := by
  induction mine generalizing theirs with
  | nil => cases theirs <;> simp_all
  | cons head rest ih =>
    cases theirs with
    | nil => simp at length
    | cons head' rest' =>
      simp only [List.zip_cons_cons, List.forall_mem_cons] at same
      simp only [List.map_cons, same.1, ih (by simpa using length) same.2]

/-- Zipping the entries of two maps of one size pairs off the first map's names in order. -/
theorem zip_keys {α β : Type} {mine : BTreeMap String α} {theirs : BTreeMap String β}
    (lengths : mine.len = theirs.len) :
    (mine.entries.zip theirs.entries).map (·.1.1) = mine.keys := by
  have paired := congrArg (List.map Prod.fst)
    (List.map_fst_zip mine.entries theirs.entries (le_of_eq lengths))
  rwa [List.map_map] at paired

/-- What a successful `merge` ran: every loop succeeded, and the result is what they built. -/
theorem merge_eq_ok [DecidableEq F] {self other r : SerializeableSharedRep3Input F U}
    (success : self.merge other = .ok r) :
    checkPublicInputs self.public_inputs other.public_inputs.entries = .ok () ∧
    mergeMaybePublicInputs self.public_inputs self.maybe_public_inputs
      other.maybe_public_inputs.entries .new = .ok r.maybe_public_inputs ∧
    self.maybe_shared_inputs.len = other.maybe_shared_inputs.len ∧
    r.public_inputs = self.public_inputs ∧
    ∃ shared_inputs, mergeSharedInputs self.public_inputs other.public_inputs
        other.shared_inputs.entries self.shared_inputs = .ok shared_inputs ∧
      mergeMaybeSharedInputs (self.maybe_shared_inputs.entries.zip other.maybe_shared_inputs.entries)
        (shared_inputs, .new) = .ok (r.shared_inputs, r.maybe_shared_inputs) := by
  simp only [merge, Except.bind_eq_ok] at success
  obtain ⟨⟨⟩, checked, maybe_public, merged_public, shared_inputs, merged_shared, rest⟩ := success
  split_ifs at rest with lengths
  · simp at rest
  obtain ⟨maps, merged, assembled⟩ := Except.bind_eq_ok.mp (by simpa using rest)
  cases assembled
  exact ⟨checked, merged_public, not_not.mp lengths, rfl, shared_inputs, merged_shared, merged⟩

/-- After a successful `merge`, both sides staged the same maybe-shared names. -/
theorem merge_maybe_shared_keys [DecidableEq F] {self other r : SerializeableSharedRep3Input F U}
    (success : self.merge other = .ok r) :
    self.maybe_shared_inputs.keys = other.maybe_shared_inputs.keys := by
  obtain ⟨-, -, lengths, -, _, -, merged⟩ := merge_eq_ok success
  exact map_fst_eq_of_zip lengths (mergeMaybeSharedInputs_spec merged).1

end SerializeableSharedRep3Input

end CoSnarks.Model.Circom
