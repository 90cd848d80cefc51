import CoSnarks.Model.Circom.Input

/-! # Building a party's input from all providers at once

`SharedInput::build_from_sources` folds every provider's input into one accumulator: public
values must agree, replicated shares must not repeat a name, and staged columns are merged
position by position with the columns staged under the same name before. After the fold each
staged column must be complete and is promoted to the public values or the shares. The schemes
the function does not handle yet end in `todo!()`, a panic here.
-/

namespace CoSnarks.Model.Circom

open CoSnarks.Model.Core

namespace SharedInput

variable {F U : Type} [DecidableEq F]

/-- The message of `todo!()`. -/
def todo : Failure := .panic "not yet implemented"

/-- The public-input loop of one source: a name seen before must carry the same values. -/
def addPublicInputs : List (String × List F) → BTreeMap String (List F) →
    Except Failure (BTreeMap String (List F))
  | [], public_inputs => pure public_inputs
  | (k, v) :: rest, public_inputs =>
    match public_inputs.insert k v with
    | (some old, public_inputs) =>
      if old ≠ v then throw (.report "public inputs must match from sources")
      else addPublicInputs rest public_inputs
    | (none, public_inputs) => addPublicInputs rest public_inputs

/-- The shared-input loop of one source: only replicated shares are handled, each name once. -/
def addSharedInputs :
    List (String × Rep3ShareVecType F U) → BTreeMap String (List (Rep3PrimeFieldShare F)) →
      Except Failure (BTreeMap String (List (Rep3PrimeFieldShare F)))
  | [], shared_inputs => pure shared_inputs
  | (k, .replicated rep3) :: rest, shared_inputs =>
    if (shared_inputs.insert k rep3).1.isSome then
      throw (.report "cannot provide multiple shared inputs with same key")
    else addSharedInputs rest (shared_inputs.insert k rep3).2
  | (_, .seededReplicated _) :: _, _ => throw todo
  | (_, .additive _) :: _, _ => throw todo
  | (_, .seededAdditive _) :: _, _ => throw todo

/-- The zip loop shared by both staged collections: values known on both sides must agree, a
value known on one side is kept, and a position known on neither stays a gap. -/
def mergeColumns {α : Type} [DecidableEq α] :
    List (Option α × Option α) → Except Failure (List (Option α))
  | [] => pure []
  | (some m, some t) :: rest =>
    if m ≠ t then throw (.report "maybe public inputs must be same!")
    else (some m :: ·) <$> mergeColumns rest
  | (none, some f) :: rest => (some f :: ·) <$> mergeColumns rest
  | (some f, none) :: rest => (some f :: ·) <$> mergeColumns rest
  | (none, none) :: rest => (none :: ·) <$> mergeColumns rest

/-- The maybe-public loop of one source: a column staged before under the name must have the
same length, and the two are merged. -/
def addMaybePublicInputs : List (String × List (Option F)) →
    BTreeMap String (List (Option F)) → Except Failure (BTreeMap String (List (Option F)))
  | [], maybe_publics => pure maybe_publics
  | (k, v) :: rest, maybe_publics =>
    match maybe_publics.remove k with
    | (some mine, maybe_publics) =>
      if mine.length ≠ v.length then throw (.report "maybe public inputs must be same length")
      else do
        let merged ← mergeColumns (mine.zip v)
        addMaybePublicInputs rest (maybe_publics.insert k merged).2
    | (none, maybe_publics) => addMaybePublicInputs rest (maybe_publics.insert k v).2

/-- The maybe-shared loop of one source: replicated columns staged under one name are merged
over the shorter one, with no length check. -/
def addMaybeSharedInputs : List (String × MaybeRep3ShareVecType F) →
    BTreeMap String (MaybeRep3ShareVecType F) →
      Except Failure (BTreeMap String (MaybeRep3ShareVecType F))
  | [], maybe_shared => pure maybe_shared
  | (k, theirs) :: rest, maybe_shared =>
    match maybe_shared.remove k with
    | (some mine, maybe_shared) =>
      match mine, theirs with
      | .replicated mine, .replicated theirs => do
        let merged ← mergeColumns (mine.zip theirs)
        addMaybeSharedInputs rest (maybe_shared.insert k (.replicated merged)).2
      | _, _ => throw todo
    | (none, maybe_shared) => addMaybeSharedInputs rest (maybe_shared.insert k theirs).2

/-- What `build_from_sources` carries from one source to the next. -/
structure Accumulator (F : Type) where
  shared_input : SharedInput F (Rep3PrimeFieldShare F)
  maybe_publics : BTreeMap String (List (Option F))
  maybe_shared : BTreeMap String (MaybeRep3ShareVecType F)

/-- The body of the `for source in sources` loop: the four loops over one source in turn. -/
def addSource (acc : Accumulator F) (source : SerializeableSharedRep3Input F U) :
    Except Failure (Accumulator F) := do
  let public_inputs ← addPublicInputs source.public_inputs.entries acc.shared_input.public_inputs
  let shared_inputs ← addSharedInputs source.shared_inputs.entries acc.shared_input.shared_inputs
  let maybe_publics ← addMaybePublicInputs source.maybe_public_inputs.entries acc.maybe_publics
  let maybe_shared ← addMaybeSharedInputs source.maybe_shared_inputs.entries acc.maybe_shared
  pure ⟨⟨public_inputs, shared_inputs⟩, maybe_publics, maybe_shared⟩

/-- The first final loop: a complete staged public column becomes public, unless the name is
public already. -/
def promoteMaybePublics : List (String × List (Option F)) → BTreeMap String (List F) →
    Except Failure (BTreeMap String (List F))
  | [], public_inputs => pure public_inputs
  | (k, v) :: rest, public_inputs =>
    if public_inputs.containsKey k then
      throw (.report s!"key present \"{k}\"in maybe shared and in public input")
    else match v.allSome with
      | some not_maybe => promoteMaybePublics rest (public_inputs.insert k not_maybe).2
      | none => throw (.report "Still unmerged public input")

/-- The second final loop: a complete staged replicated column becomes a share, unless the name
is shared already. -/
def promoteMaybeShared : List (String × MaybeRep3ShareVecType F) →
    BTreeMap String (List (Rep3PrimeFieldShare F)) →
      Except Failure (BTreeMap String (List (Rep3PrimeFieldShare F)))
  | [], shared_inputs => pure shared_inputs
  | (k, v) :: rest, shared_inputs =>
    if shared_inputs.containsKey k then
      throw (.report s!"key present \"{k}\"in maybe shared and in shared input")
    else match v with
      | .replicated rep3 =>
        match rep3.allSome with
        | some not_maybe => promoteMaybeShared rest (shared_inputs.insert k not_maybe).2
        | none => throw (.report "Still unmerged public input")
      | .additive _ => throw todo

/-- `SharedInput::build_from_sources`. -/
def buildFromSources (sources : List (SerializeableSharedRep3Input F U)) :
    Except Failure (SharedInput F (Rep3PrimeFieldShare F)) := do
  let acc ← sources.foldlM addSource ⟨SharedInput.default, .new, .new⟩
  let public_inputs ← promoteMaybePublics acc.maybe_publics.entries acc.shared_input.public_inputs
  let shared_inputs ← promoteMaybeShared acc.maybe_shared.entries acc.shared_input.shared_inputs
  pure ⟨public_inputs, shared_inputs⟩

/-! ## One specification per loop -/

/-- One position of the zip loop: two known values must agree, and the position keeps whichever
value it holds. -/
theorem mergeColumns_cons {α : Type} [DecidableEq α] (mine theirs : Option α)
    (rest : List (Option α × Option α)) {merged : List (Option α)} :
    mergeColumns ((mine, theirs) :: rest) = .ok merged ↔
      (∀ m ∈ mine, ∀ t ∈ theirs, m = t) ∧
        ∃ tail, mergeColumns rest = .ok tail ∧ merged = mine.or theirs :: tail := by
  cases mine <;> cases theirs
  case some.some m t =>
    by_cases same : m = t <;> simp [mergeColumns, same, Except.map_eq_ok, @eq_comm _ merged]
  all_goals simp [mergeColumns, Except.map_eq_ok, @eq_comm _ merged]

/-- The zip loop succeeds exactly when no position holds two different values, and then keeps
whichever value each position holds. -/
theorem mergeColumns_eq_ok {α : Type} [DecidableEq α] {pairs : List (Option α × Option α)}
    {merged : List (Option α)} :
    mergeColumns pairs = .ok merged ↔
      (∀ pair ∈ pairs, ∀ mine ∈ pair.1, ∀ theirs ∈ pair.2, mine = theirs) ∧
        merged = pairs.map fun pair => pair.1.or pair.2 := by
  induction pairs generalizing merged with
  | nil => simp [mergeColumns, pure, Except.pure, eq_comm]
  | cons head rest ih =>
    obtain ⟨mine, theirs⟩ := head
    simp only [mergeColumns_cons, ih, List.forall_mem_cons, List.map_cons]
    constructor
    · rintro ⟨agree, _, ⟨agree', rfl⟩, rfl⟩
      exact ⟨⟨agree, agree'⟩, rfl⟩
    · rintro ⟨⟨agree, agree'⟩, rfl⟩
      exact ⟨agree, _, ⟨agree', rfl⟩, rfl⟩

/-- The public-input loop keeps every name it had and ends holding every entry it read. -/
theorem addPublicInputs_spec {entries : List (String × List F)}
    {public_inputs result : BTreeMap String (List F)}
    (success : addPublicInputs entries public_inputs = .ok result) :
    (∀ key values, public_inputs.get key = some values → result.get key = some values) ∧
      ∀ entry ∈ entries, result.get entry.1 = some entry.2 := by
  induction entries generalizing public_inputs with
  | nil => cases success; exact ⟨fun _ _ => id, nofun⟩
  | cons head rest ih =>
    obtain ⟨key, value⟩ := head
    rw [addPublicInputs, BTreeMap.insert_eq] at success
    obtain ⟨agrees, tail⟩ : (∀ old, public_inputs.get key = some old → old = value) ∧
        addPublicInputs rest (public_inputs.insert key value).2 = .ok result := by
      cases found : public_inputs.get key with
      | none => exact ⟨nofun, by simpa only [found] using success⟩
      | some old =>
        simp only [found, ne_eq, ite_not] at success
        split_ifs at success with same
        exact ⟨fun _ stored => Option.some.inj stored ▸ same, success⟩
    obtain ⟨keep, later⟩ := ih tail
    refine ⟨fun _ _ found => keep _ _ (BTreeMap.get_insert_of_agrees agrees found), ?_⟩
    exact List.forall_mem_cons.mpr ⟨keep key value (by simp), later⟩

/-- The shared-input loop keeps every share it had and ends holding every entry it read, each a
replicated column: any other scheme panics. -/
theorem addSharedInputs_spec {entries : List (String × Rep3ShareVecType F U)}
    {shared_inputs result : BTreeMap String (List (Rep3PrimeFieldShare F))}
    (success : addSharedInputs entries shared_inputs = .ok result) :
    (∀ key shares, shared_inputs.get key = some shares → result.get key = some shares) ∧
      ∀ entry ∈ entries, ∃ shares, entry.2 = .replicated shares ∧
        result.get entry.1 = some shares := by
  induction entries generalizing shared_inputs with
  | nil => cases success; exact ⟨fun _ _ => id, nofun⟩
  | cons head rest ih =>
    obtain ⟨key, shares | _ | _ | _⟩ := head <;> simp only [addSharedInputs] at success
    · simp only [BTreeMap.insert_fst, Option.isSome_iff_ne_none, ne_eq, not_not, ite_not] at success
      split_ifs at success with absent
      obtain ⟨keep, later⟩ := ih success
      refine ⟨fun _ _ found => keep _ _ (BTreeMap.get_insert_of_absent absent found), ?_⟩
      exact List.forall_mem_cons.mpr ⟨⟨shares, rfl, keep key shares (by simp)⟩, later⟩
    all_goals cases success

omit [DecidableEq F] in
/-- The first final loop keeps every public name and promotes each staged column it reads,
which must be complete and under a name that was not public. -/
theorem promoteMaybePublics_spec {entries : List (String × List (Option F))}
    {public_inputs result : BTreeMap String (List F)}
    (success : promoteMaybePublics entries public_inputs = .ok result) :
    (∀ key values, public_inputs.get key = some values → result.get key = some values) ∧
      (∀ entry ∈ entries, ∃ values, entry.2 = values.map some ∧
        result.get entry.1 = some values) ∧
      ∀ entry ∈ entries, public_inputs.get entry.1 = none := by
  induction entries generalizing public_inputs with
  | nil => cases success; exact ⟨fun _ _ => id, nofun, nofun⟩
  | cons head rest ih =>
    obtain ⟨key, column⟩ := head
    simp only [promoteMaybePublics] at success
    split_ifs at success with present
    cases complete : column.allSome with
    | none => simp [complete] at success
    | some values =>
      simp only [complete] at success
      have absent : public_inputs.get key = none := by
        simpa [BTreeMap.containsKey] using present
      obtain ⟨keep, later, fresh⟩ := ih success
      exact ⟨fun _ _ found => keep _ _ (BTreeMap.get_insert_of_absent absent found),
        List.forall_mem_cons.mpr
          ⟨⟨values, allSome_eq_some.mp complete, keep key values (by simp)⟩, later⟩,
        List.forall_mem_cons.mpr
          ⟨absent, fun entry read => BTreeMap.get_eq_none_of_insert (fresh entry read)⟩⟩

omit [DecidableEq F] in
/-- The second final loop keeps every share and promotes each staged column it reads, which
must be a complete replicated column under a name that was not shared. -/
theorem promoteMaybeShared_spec {entries : List (String × MaybeRep3ShareVecType F)}
    {shared_inputs result : BTreeMap String (List (Rep3PrimeFieldShare F))}
    (success : promoteMaybeShared entries shared_inputs = .ok result) :
    (∀ key shares, shared_inputs.get key = some shares → result.get key = some shares) ∧
      (∀ entry ∈ entries, ∃ shares, entry.2 = .replicated (shares.map some) ∧
        result.get entry.1 = some shares) ∧
      ∀ entry ∈ entries, shared_inputs.get entry.1 = none := by
  induction entries generalizing shared_inputs with
  | nil => cases success; exact ⟨fun _ _ => id, nofun, nofun⟩
  | cons head rest ih =>
    obtain ⟨key, column | column⟩ := head <;> simp only [promoteMaybeShared] at success <;>
      split_ifs at success with present
    · cases complete : column.allSome with
      | none => simp [complete] at success
      | some shares =>
        simp only [complete] at success
        have absent : shared_inputs.get key = none := by
          simpa [BTreeMap.containsKey] using present
        obtain ⟨keep, later, fresh⟩ := ih success
        exact ⟨fun _ _ found => keep _ _ (BTreeMap.get_insert_of_absent absent found),
          List.forall_mem_cons.mpr
            ⟨⟨shares, by rw [allSome_eq_some.mp complete], keep key shares (by simp)⟩, later⟩,
          List.forall_mem_cons.mpr
            ⟨absent, fun entry read => BTreeMap.get_eq_none_of_insert (fresh entry read)⟩⟩

end SharedInput

end CoSnarks.Model.Circom
