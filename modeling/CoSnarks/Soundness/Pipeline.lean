import Mathlib.Data.ZMod.Defs
import CoSnarks.Model.Circom.BuildFromSources
import CoSnarks.Soundness.Sharing

/-! # From the providers' columns to the parties' shares

Providers who each know part of one column stage their parts under one name. When the parts
have one length, agree, and together cover the column, `build_from_sources` resolves it to their
union; when they maybe-share disjoint parts, the three parties' resolved shares at each position
are a replicated sharing of the value known there.
-/

namespace CoSnarks.Soundness.Pipeline

open CoSnarks.Model.Core CoSnarks.Model.Circom SharedInput

section Union

variable {α : Type}

/-- The staged column the maybe-shared zip loop leaves when it merges `column` into `merged`. -/
def mergeStaged (merged column : List (Option α)) : List (Option α) :=
  (merged.zip column).map fun pair => pair.1.or pair.2

/-- Two partly known columns agree wherever both are known. -/
def Agree (column other : List (Option α)) : Prop :=
  ∀ (k : ℕ) (x y : α), column[k]? = some (some x) → other[k]? = some (some y) → x = y

/-- `merged` is the union of the columns `done`, each of length `n`: it has length `n` and knows
a value at a position exactly when one of them does. -/
def Unites (n : ℕ) (done : List (List (Option α))) (merged : List (Option α)) : Prop :=
  merged.length = n ∧
    ∀ (k : ℕ) (x : α), merged[k]? = some (some x) ↔ ∃ column ∈ done, column[k]? = some (some x)

private theorem unites_single {n : ℕ} {column : List (Option α)} (length : column.length = n) :
    Unites n [column] column :=
  ⟨length, fun _ _ => by simp⟩

/-- Merging one more column of length `n` that agrees with all merged so far: no position holds
two different values, and the result unites all of them. -/
private theorem unites_mergeStaged {n : ℕ} {done : List (List (Option α))} {merged column : List (Option α)}
    (unites : Unites n done merged) (length : column.length = n)
    (agree : ∀ other ∈ done, Agree other column) :
    (∀ pair ∈ merged.zip column, ∀ x ∈ pair.1, ∀ y ∈ pair.2, x = y) ∧
      Unites n (done ++ [column]) (mergeStaged merged column) := by
  have known : ∀ {k : ℕ} {x y : α}, merged[k]? = some (some x) → column[k]? = some (some y) →
      x = y := fun mine theirs => by
    obtain ⟨other, member, found⟩ := (unites.2 _ _).mp mine
    exact agree other member _ _ _ found theirs
  refine ⟨fun pair member x mine y theirs => ?_, by simp [mergeStaged, unites.1, length], ?_⟩
  · obtain ⟨k, found⟩ := List.mem_iff_getElem?.mp member
    obtain ⟨left, right⟩ := List.getElem?_zip_eq_some.mp found
    exact known (by simpa [Option.mem_def.mp mine] using left)
      (by simpa [Option.mem_def.mp theirs] using right)
  · intro k x
    rw [mergeStaged, List.getElem?_map]
    simp only [List.mem_append, List.mem_singleton, or_and_right, exists_or, exists_eq_left,
      ← unites.2 k x]
    by_cases below : k < n
    · have size : k < merged.length := by rw [unites.1]; exact below
      have mine : merged[k]? = some merged[k] := List.getElem?_eq_getElem size
      have theirs : column[k]? = some column[k] := List.getElem?_eq_getElem (by omega)
      have zipped : (merged.zip column)[k]? = some (merged[k], column[k]) :=
        List.getElem?_zip_eq_some.mpr ⟨mine, theirs⟩
      rw [zipped, theirs]
      generalize merged[k] = a at mine
      generalize column[k] = b at theirs
      cases a with
      | none => simp [mine]
      | some y =>
        simp only [mine, Option.map_some', Option.or_some, Option.some.injEq]
        constructor
        · rintro rfl
          exact .inl rfl
        · rintro (same | same)
          · exact same
          · exact known mine (same ▸ theirs)
    · have size := unites.1
      simp [List.getElem?_eq_none (show (merged.zip column).length ≤ k by simp; omega),
        List.getElem?_eq_none (show merged.length ≤ k by omega),
        List.getElem?_eq_none (show column.length ≤ k by omega)]

end Union

section Build

variable {F U : Type} [DecidableEq F] (key : String)

/-- A provider's input for one party that stages only `staged`, under `key`. -/
def stagedSource (staged : MaybeRep3ShareVecType F) : SerializeableSharedRep3Input F U :=
  ⟨.new, .new, .new, (BTreeMap.new.insert key staged).2⟩

/-- The accumulator of `build_from_sources` holding nothing but `merged` staged under `key`. -/
def stagedAcc (merged : List (Option (Rep3PrimeFieldShare F))) : Accumulator F :=
  ⟨SharedInput.default, .new, (BTreeMap.new.insert key (.replicated merged)).2⟩

/-- The first source stages its column as it is. -/
private theorem addSource_first (column : List (Option (Rep3PrimeFieldShare F))) :
    addSource ⟨SharedInput.default, .new, .new⟩
      (stagedSource key (.replicated column) : SerializeableSharedRep3Input F U) =
        .ok (stagedAcc key column) :=
  rfl

omit [DecidableEq F] in
/-- The staged column is the only entry, so removing it leaves nothing staged. -/
private theorem removeEntry_staged (merged : List (Option (Rep3PrimeFieldShare F))) :
    BTreeMap.removeEntry key (BTreeMap.new.insert key (.replicated merged)).2.entries =
      (some (.replicated merged : MaybeRep3ShareVecType F), []) := by
  show BTreeMap.removeEntry key [(key, _)] = _
  simp [BTreeMap.removeEntry]

/-- A later source's column is merged into the staged one. -/
private theorem addSource_staged {merged column : List (Option (Rep3PrimeFieldShare F))}
    (mergeable : ∀ pair ∈ merged.zip column, ∀ x ∈ pair.1, ∀ y ∈ pair.2, x = y) :
    addSource (stagedAcc key merged)
      (stagedSource key (.replicated column) : SerializeableSharedRep3Input F U) =
        .ok (stagedAcc key (mergeStaged merged column)) := by
  have merging : mergeColumns (merged.zip column) = .ok (mergeStaged merged column) :=
    mergeColumns_eq_ok.mpr ⟨mergeable, rfl⟩
  simp only [addSource, stagedAcc, stagedSource, addMaybeSharedInputs, BTreeMap.remove,
    removeEntry_staged, merging]
  rfl

omit [DecidableEq F] in
/-- The zip loop fails at a position that holds two different values, and a failure anywhere
ends it with the same message. -/
private theorem mergeColumns_conflict {α : Type} [DecidableEq α] :
    ∀ {pairs : List (Option α × Option α)},
      (∃ pair ∈ pairs, ∃ m ∈ pair.1, ∃ t ∈ pair.2, m ≠ t) →
      mergeColumns pairs = .error (.report "maybe public inputs must be same!")
  | (mine, theirs) :: rest, ⟨pair, member, m, found, t, found', differ⟩ => by
    rcases List.mem_cons.mp member with rfl | later
    · obtain rfl : mine = some m := found
      obtain rfl : theirs = some t := found'
      simp [mergeColumns, differ, throw, throwThe, MonadExceptOf.throw]
    · have failed := mergeColumns_conflict ⟨pair, later, m, found, t, found', differ⟩
      cases mine <;> cases theirs <;> simp only [mergeColumns, failed] <;> (try split_ifs) <;> rfl

/-- A later source whose column holds, somewhere, a share other than the staged one fails. -/
private theorem addSource_conflict {merged column : List (Option (Rep3PrimeFieldShare F))}
    (conflict : ∃ pair ∈ merged.zip column, ∃ x ∈ pair.1, ∃ y ∈ pair.2, x ≠ y) :
    addSource (stagedAcc key merged)
      (stagedSource key (.replicated column) : SerializeableSharedRep3Input F U) =
        .error (.report "maybe public inputs must be same!") := by
  simp only [addSource, stagedAcc, stagedSource, addMaybeSharedInputs, BTreeMap.remove,
    removeEntry_staged, mergeColumns_conflict conflict]
  rfl

variable (U) in
/-- Folding sources that stage parts of one length which agree wherever two are known keeps one
staged column, the union of all parts read. -/
theorem foldlM_stagedSources {n : ℕ} :
    ∀ (columns : List (List (Option (Rep3PrimeFieldShare F))))
      {done : List (List (Option (Rep3PrimeFieldShare F)))} {merged : List (Option (Rep3PrimeFieldShare F))},
      Unites n done merged → (∀ column ∈ columns, column.length = n) →
        (done ++ columns).Pairwise Agree → ∃ final,
          (columns.map fun column =>
            (stagedSource key (.replicated column) : SerializeableSharedRep3Input F U)).foldlM
              addSource (stagedAcc key merged) = .ok (stagedAcc key final) ∧
          Unites n (done ++ columns) final
  | [], _, merged, unites, _, _ => ⟨merged, rfl, by simpa using unites⟩
  | column :: columns, done, merged, unites, same, agree => by
    have before : ∀ other ∈ done, Agree other column := fun other member =>
      List.pairwise_append.mp agree |>.2.2 other member column (List.mem_cons_self _ _)
    obtain ⟨mergeable, unites'⟩ :=
      unites_mergeStaged unites (same column (List.mem_cons_self _ _)) before
    obtain ⟨final, folded, united⟩ := foldlM_stagedSources columns unites'
      (fun other member => same other (List.mem_cons_of_mem _ member))
      (by simpa using agree)
    refine ⟨final, ?_, by simpa using united⟩
    rw [List.map_cons, List.foldlM_cons, addSource_staged key mergeable]
    exact folded

omit [DecidableEq F] in
/-- Promoting the union of parts that together know every position resolves it under `key`. -/
private theorem promote_unites {n : ℕ} {columns : List (List (Option (Rep3PrimeFieldShare F)))}
    {final : List (Option (Rep3PrimeFieldShare F))} (united : Unites n columns final)
    (covered : ∀ k < n, ∃ column ∈ columns, ∃ x, column[k]? = some (some x)) :
    ∃ shares : List (Rep3PrimeFieldShare F), final = shares.map some ∧
      promoteMaybeShared (stagedAcc key final).maybe_shared.entries BTreeMap.new =
        .ok (BTreeMap.new.insert key shares).2 := by
  cases complete : final.allSome with
  | none =>
    obtain ⟨k, gap⟩ := List.mem_iff_getElem?.mp (allSome_eq_none.mp complete)
    obtain ⟨column, member, x, known⟩ :=
      covered k (united.1 ▸ (List.getElem?_eq_some_iff.mp gap).1)
    cases gap.symm.trans ((united.2 k x).mpr ⟨column, member, known⟩)
  | some shares =>
    refine ⟨shares, allSome_eq_some.mp complete, ?_⟩
    show promoteMaybeShared [(key, .replicated final)] BTreeMap.new = _
    simp [promoteMaybeShared, complete, BTreeMap.containsKey, pure, Except.pure]

omit [DecidableEq F] in
/-- Promoting the union of parts that all leave one position unknown fails. -/
private theorem promote_gap {n : ℕ} {columns : List (List (Option (Rep3PrimeFieldShare F)))}
    {final : List (Option (Rep3PrimeFieldShare F))} (united : Unites n columns final) {k : ℕ}
    (below : k < n) (unknown : ∀ column ∈ columns, column[k]? = some none) :
    promoteMaybeShared (stagedAcc key final).maybe_shared.entries BTreeMap.new =
      .error (.report "Still unmerged public input") := by
  obtain ⟨slot, found⟩ : ∃ slot, final[k]? = some slot :=
    ⟨_, List.getElem?_eq_getElem (united.1 ▸ below)⟩
  have missing : final.allSome = none := by
    refine allSome_eq_none.mpr ?_
    cases slot with
    | none => exact List.getElem?_mem found
    | some x =>
      obtain ⟨column, member, known⟩ := (united.2 k x).mp found
      cases known.symm.trans (unknown column member)
  show promoteMaybeShared [(key, .replicated final)] BTreeMap.new = _
  simp [promoteMaybeShared, missing, BTreeMap.containsKey, throw, throwThe, MonadExceptOf.throw]

/-- Parts of one column of length `n` that agree and cover every position build to the single
share column holding, at each position, the share a part knows there. -/
theorem buildFromSources_resolves_parts (columns : List (List (Option (Rep3PrimeFieldShare F))))
    (n : ℕ) (nonempty : columns ≠ []) (same : ∀ column ∈ columns, column.length = n)
    (agree : columns.Pairwise Agree)
    (covered : ∀ k < n, ∃ column ∈ columns, ∃ x, column[k]? = some (some x)) :
    ∃ shares : List (Rep3PrimeFieldShare F),
      buildFromSources (columns.map fun column =>
          (stagedSource key (.replicated column) : SerializeableSharedRep3Input F U)) =
        .ok ⟨.new, (BTreeMap.new.insert key shares).2⟩ ∧
      shares.length = n ∧
      ∀ column ∈ columns, ∀ (k : ℕ) (x : Rep3PrimeFieldShare F),
        column[k]? = some (some x) → shares[k]? = some x := by
  obtain ⟨first, rest, rfl⟩ := List.exists_cons_of_ne_nil nonempty
  obtain ⟨final, folded, united⟩ := foldlM_stagedSources U key rest
    (unites_single (same first (List.mem_cons_self _ _)))
    (fun column member => same column (List.mem_cons_of_mem _ member)) (by simpa using agree)
  obtain ⟨shares, rfl, promoted⟩ := promote_unites key united covered
  refine ⟨shares, ?_, by simpa using united.1, fun column member k x known => ?_⟩
  · rw [buildFromSources, List.map_cons, List.foldlM_cons, addSource_first]
    simp only [Except.ok_bind, folded]
    rw [show (stagedAcc key (shares.map some)).shared_input.shared_inputs = BTreeMap.new from rfl,
      promoted]
    rfl
  · have := (united.2 k x).mpr ⟨column, by simpa using member, known⟩
    simpa [List.getElem?_map] using this

variable (U) in
/-- Folding sources whose parts, read so far or still to come, disagree somewhere fails with the
message of the zip loop. -/
theorem foldlM_stagedSources_conflict {n : ℕ} :
    ∀ (columns : List (List (Option (Rep3PrimeFieldShare F))))
      {done : List (List (Option (Rep3PrimeFieldShare F)))} {merged : List (Option (Rep3PrimeFieldShare F))},
      Unites n done merged → done.Pairwise Agree → (∀ column ∈ columns, column.length = n) →
        ¬ (done ++ columns).Pairwise Agree →
          (columns.map fun column =>
            (stagedSource key (.replicated column) : SerializeableSharedRep3Input F U)).foldlM
              addSource (stagedAcc key merged) = .error (.report "maybe public inputs must be same!")
  | [], _, _, _, agree, _, conflict => (conflict (by simpa using agree)).elim
  | column :: columns, done, merged, unites, agree, same, conflict => by
    rw [List.map_cons, List.foldlM_cons]
    by_cases before : ∀ other ∈ done, Agree other column
    · obtain ⟨mergeable, unites'⟩ :=
        unites_mergeStaged unites (same column (List.mem_cons_self _ _)) before
      rw [addSource_staged key mergeable, Except.ok_bind]
      refine foldlM_stagedSources_conflict columns unites' ?_
        (fun other member => same other (List.mem_cons_of_mem _ member)) (by simpa using conflict)
      exact List.pairwise_append.mpr ⟨agree, List.pairwise_singleton _ _,
        fun other member _ last => List.mem_singleton.mp last ▸ before other member⟩
    · simp only [Agree, not_forall] at before
      obtain ⟨other, member, k, x, y, mine, theirs, differ⟩ := before
      have zipped : (merged.zip column)[k]? = some (some x, some y) :=
        List.getElem?_zip_eq_some.mpr ⟨(unites.2 k x).mpr ⟨other, member, mine⟩, theirs⟩
      rw [addSource_conflict key ⟨_, List.getElem?_mem zipped, x, rfl, y, rfl, differ⟩]
      rfl

omit [DecidableEq F] in
/-- Parts that agree pairwise agree in any order and with themselves. -/
private theorem agree_of_pairwise {α : Type} {columns : List (List (Option α))} (agree : columns.Pairwise Agree)
    {column other : List (Option α)} (member : column ∈ columns) (member' : other ∈ columns) :
    Agree column other := by
  by_cases same : column = other
  · subst same
    exact fun k x y mine theirs => Option.some.inj (Option.some.inj (mine.symm.trans theirs))
  · refine agree.forall ?_ member member' same
    intro _ _ agrees k x y mine theirs
    exact (agrees k y x theirs mine).symm

/-- Parts of one length of which two hold different shares at one position make
`build_from_sources` fail with the zip loop's message. -/
theorem buildFromSources_rejects_conflicting_parts
    (columns : List (List (Option (Rep3PrimeFieldShare F)))) (n : ℕ)
    (same : ∀ column ∈ columns, column.length = n)
    (conflict : ∃ column ∈ columns, ∃ other ∈ columns, ∃ (k : ℕ) (x y : Rep3PrimeFieldShare F),
      column[k]? = some (some x) ∧ other[k]? = some (some y) ∧ x ≠ y) :
    buildFromSources (columns.map fun column =>
        (stagedSource key (.replicated column) : SerializeableSharedRep3Input F U)) =
      .error (.report "maybe public inputs must be same!") := by
  obtain ⟨column, member, other, member', k, x, y, mine, theirs, differ⟩ := conflict
  have disagree : ¬ columns.Pairwise Agree := fun agree =>
    differ (agree_of_pairwise agree member member' k x y mine theirs)
  obtain ⟨first, rest, rfl⟩ := List.exists_cons_of_ne_nil (List.ne_nil_of_mem member)
  rw [buildFromSources, List.map_cons, List.foldlM_cons, addSource_first, Except.ok_bind,
    foldlM_stagedSources_conflict U key rest (unites_single (same first (List.mem_cons_self _ _)))
      (List.pairwise_singleton _ _) (fun column member => same column (List.mem_cons_of_mem _ member))
      (by simpa using disagree)]
  rfl

/-- Two parts of a one-share column that disagree on its share. -/
def clashing : List (List (Option (Rep3PrimeFieldShare ℤ))) :=
  [[some ⟨1, 2⟩], [some ⟨3, 4⟩]]

theorem clashing_conflict : ∃ column ∈ clashing, ∃ other ∈ clashing,
    ∃ (k : ℕ) (x y : Rep3PrimeFieldShare ℤ),
      column[k]? = some (some x) ∧ other[k]? = some (some y) ∧ x ≠ y :=
  ⟨_, List.mem_cons_self _ _, _, List.mem_cons_of_mem _ (List.mem_cons_self _ _), 0, _, _, rfl,
    rfl, by decide⟩

theorem buildFromSources_rejects_conflicting_parts_of_clash :
    (∀ column ∈ clashing, column.length = 1) ∧
    (∃ column ∈ clashing, ∃ other ∈ clashing, ∃ (k : ℕ) (x y : Rep3PrimeFieldShare ℤ),
      column[k]? = some (some x) ∧ other[k]? = some (some y) ∧ x ≠ y) ∧
    buildFromSources (clashing.map fun column =>
        (stagedSource "x" (.replicated column) : SerializeableSharedRep3Input ℤ Unit)) =
      .error (.report "maybe public inputs must be same!") :=
  ⟨by decide, clashing_conflict,
    buildFromSources_rejects_conflicting_parts "x" clashing 1 (by decide) clashing_conflict⟩

/-- Agreeing parts of one length that all leave one position unknown make `build_from_sources`
fail with the message of the final loop. -/
theorem buildFromSources_rejects_incomplete_parts
    (columns : List (List (Option (Rep3PrimeFieldShare F)))) (n : ℕ) (nonempty : columns ≠ [])
    (same : ∀ column ∈ columns, column.length = n) (agree : columns.Pairwise Agree)
    (gap : ∃ k < n, ∀ column ∈ columns, column[k]? = some none) :
    buildFromSources (columns.map fun column =>
        (stagedSource key (.replicated column) : SerializeableSharedRep3Input F U)) =
      .error (.report "Still unmerged public input") := by
  obtain ⟨k, below, unknown⟩ := gap
  obtain ⟨first, rest, rfl⟩ := List.exists_cons_of_ne_nil nonempty
  obtain ⟨final, folded, united⟩ := foldlM_stagedSources U key rest
    (unites_single (same first (List.mem_cons_self _ _)))
    (fun column member => same column (List.mem_cons_of_mem _ member)) (by simpa using agree)
  rw [buildFromSources, List.map_cons, List.foldlM_cons, addSource_first]
  simp only [Except.ok_bind, folded]
  rw [show (stagedAcc key final).shared_input.shared_inputs = BTreeMap.new from rfl,
    promote_gap key united below (by simpa using unknown)]
  rfl

/-- One part of a column of two shares, knowing only the first. -/
def firstOnly : List (List (Option (Rep3PrimeFieldShare ℤ))) :=
  [[some ⟨1, 2⟩, none]]

theorem buildFromSources_rejects_incomplete_parts_of_firstOnly :
    firstOnly ≠ [] ∧ (∀ column ∈ firstOnly, column.length = 2) ∧ firstOnly.Pairwise Agree ∧
    (∃ k < 2, ∀ column ∈ firstOnly, column[k]? = some none) ∧
    buildFromSources (firstOnly.map fun column =>
        (stagedSource "x" (.replicated column) : SerializeableSharedRep3Input ℤ Unit)) =
      .error (.report "Still unmerged public input") :=
  ⟨by decide, by decide, List.pairwise_singleton _ _, ⟨1, by decide, by decide⟩,
    buildFromSources_rejects_incomplete_parts "x" firstOnly 2 (by decide) (by decide)
      (List.pairwise_singleton _ _) ⟨1, by decide, by decide⟩⟩

end Build

/-- Two parts of a column of two shares, each knowing one position. -/
def halves : List (List (Option (Rep3PrimeFieldShare (ZMod 7)))) :=
  [[some ⟨1, 2⟩, none], [none, some ⟨3, 4⟩]]

theorem halves_agree : halves.Pairwise Agree := by
  refine List.pairwise_pair.mpr fun k x y first second => ?_
  match k with
  | 0 => simp [halves] at second
  | 1 => simp [halves] at first
  | _ + 2 => simp [halves] at first

theorem halves_cover : ∀ k < 2, ∃ column ∈ halves, ∃ x, column[k]? = some (some x)
  | 0, _ => ⟨_, List.mem_cons_self _ _, _, rfl⟩
  | 1, _ => ⟨_, List.mem_cons_of_mem _ (List.mem_cons_self _ _), _, rfl⟩

theorem buildFromSources_resolves_parts_of_halves :
    halves ≠ [] ∧ (∀ column ∈ halves, column.length = 2) ∧ halves.Pairwise Agree ∧
    (∀ k < 2, ∃ column ∈ halves, ∃ x, column[k]? = some (some x)) ∧
    ∃ shares : List (Rep3PrimeFieldShare (ZMod 7)),
      buildFromSources (halves.map fun column =>
          (stagedSource "x" (.replicated column) : SerializeableSharedRep3Input (ZMod 7) Unit)) =
        .ok ⟨.new, (BTreeMap.new.insert "x" shares).2⟩ ∧
      shares.length = 2 ∧
      ∀ column ∈ halves, ∀ (k : ℕ) (x : Rep3PrimeFieldShare (ZMod 7)),
        column[k]? = some (some x) → shares[k]? = some x :=
  ⟨by decide, by decide, halves_agree, halves_cover,
    buildFromSources_resolves_parts "x" halves 2 (by decide) (by decide) halves_agree halves_cover⟩

section Providers

open Sharing Rep3

variable {F R U : Type} [AddCommGroup F] [DecidableEq F] (rand : R → F × R) (key : String)

/-- Party `j`'s sources when each provider maybe-shares its part of the column, with its own
generator state, and stages party `j`'s share column under `key`. -/
def partySources (providers : List (List (Option F) × R)) (j : Fin 3) :
    List (SerializeableSharedRep3Input F U) :=
  providers.map fun provider =>
    stagedSource key ((SerializeableSharedRep3Input.maybeShareRep3 rand provider.1 provider.2 false).1 j)

/-- Providers that maybe-share disjoint parts covering one column give every party a built column,
and the three parties' shares at each position are a replicated sharing of the value there. -/
theorem maybeShare_then_build (providers : List (List (Option F) × R)) (n : ℕ)
    (nonempty : providers ≠ []) (same : ∀ provider ∈ providers, provider.1.length = n)
    (apart : providers.Pairwise fun provider other => ∀ (k : ℕ) (x y : F),
      provider.1[k]? = some (some x) → other.1[k]? = some (some y) → False)
    (covered : ∀ k < n, ∃ provider ∈ providers, ∃ x, provider.1[k]? = some (some x)) :
    ∃ columns : Fin 3 → List (Rep3PrimeFieldShare F),
      (∀ j, buildFromSources (partySources rand key providers j : List (SerializeableSharedRep3Input F U)) =
        .ok ⟨.new, (BTreeMap.new.insert key (columns j)).2⟩) ∧
      (∀ j, (columns j).length = n) ∧
      ∀ provider ∈ providers, ∀ (k : ℕ) (x : F), provider.1[k]? = some (some x) →
        ∃ shares, IsSharing x shares ∧ ∀ j, (columns j)[k]? = some (shares j) := by
  let parts (j : Fin 3) (provider : List (Option F) × R) :=
    (shareMaybeEach (drawAndShare rand shareDrawn) provider.1 provider.2).1 j
  have sharing := fun (provider : List (Option F) × R) =>
    shareMaybeEach_getElem? rand isSharing_shareDrawn provider.1 provider.2
  have known_of : ∀ j provider (k : ℕ) (y : Rep3PrimeFieldShare F),
      (parts j provider)[k]? = some (some y) → ∃ v, provider.1[k]? = some (some v) := by
    intro j provider k y known
    obtain ⟨shares, -, located⟩ := sharing provider k
    rw [(located j : (parts j provider)[k]? = _)] at known
    obtain ⟨entry, value, mapped⟩ := Option.map_eq_some'.mp known
    obtain ⟨v, rfl, -⟩ := Option.map_eq_some'.mp mapped
    exact ⟨v, value⟩
  have each : ∀ j : Fin 3, ∃ shares : List (Rep3PrimeFieldShare F),
      buildFromSources (partySources rand key providers j : List (SerializeableSharedRep3Input F U)) =
        .ok ⟨.new, (BTreeMap.new.insert key shares).2⟩ ∧ shares.length = n ∧
      ∀ column ∈ providers.map (parts j), ∀ (k : ℕ) (x : Rep3PrimeFieldShare F),
        column[k]? = some (some x) → shares[k]? = some x := by
    intro j
    have sources : (partySources rand key providers j : List (SerializeableSharedRep3Input F U)) =
        (providers.map (parts j)).map fun column => stagedSource key (.replicated column) := by
      simp only [partySources, List.map_map]
      rfl
    rw [sources]
    refine buildFromSources_resolves_parts key _ n (by simpa using nonempty) ?_ ?_ ?_
    · simp only [List.mem_map]
      rintro _ ⟨provider, member, rfl⟩
      exact (length_shareMaybeEach _ _ _ j).trans (same provider member)
    · refine List.pairwise_map.mpr (apart.imp fun disjoint k x y known known' => ?_)
      obtain ⟨v, value⟩ := known_of j _ k x known
      obtain ⟨w, value'⟩ := known_of j _ k y known'
      exact (disjoint k v w value value').elim
    · intro k below
      obtain ⟨provider, member, x, known⟩ := covered k below
      obtain ⟨shares, -, located⟩ := sharing provider k
      exact ⟨parts j provider, List.mem_map_of_mem _ member, shares j,
        by rw [(located j : (parts j provider)[k]? = _), known]; rfl⟩
  choose columns built lengths holds using each
  refine ⟨columns, built, lengths, fun provider member k x known => ?_⟩
  obtain ⟨shares, isSharing, located⟩ := sharing provider k
  exact ⟨shares, isSharing x known, fun j => holds j _ (List.mem_map_of_mem _ member) k (shares j)
    (by rw [(located j : (parts j provider)[k]? = _), known]; rfl)⟩

end Providers

/-- A generator counting up from its state. -/
def counting (r : ℕ) : ℤ × ℕ := (r, r + 1)

/-- Two providers of a column of two values, each knowing one of them. -/
def providers : List (List (Option ℤ) × ℕ) :=
  [([some 3, none], 0), ([none, some 5], 4)]

theorem providers_apart : providers.Pairwise fun provider other => ∀ (k : ℕ) (x y : ℤ),
    provider.1[k]? = some (some x) → other.1[k]? = some (some y) → False := by
  refine List.pairwise_pair.mpr fun k x y first second => ?_
  match k with
  | 0 => simp [providers] at second
  | 1 => simp [providers] at first
  | _ + 2 => simp [providers] at first

theorem providers_cover : ∀ k < 2, ∃ provider ∈ providers, ∃ x, provider.1[k]? = some (some x)
  | 0, _ => ⟨_, List.mem_cons_self _ _, _, rfl⟩
  | 1, _ => ⟨_, List.mem_cons_of_mem _ (List.mem_cons_self _ _), _, rfl⟩

theorem maybeShare_then_build_of_halves :
    providers ≠ [] ∧ (∀ provider ∈ providers, provider.1.length = 2) ∧
    (providers.Pairwise fun provider other => ∀ (k : ℕ) (x y : ℤ),
      provider.1[k]? = some (some x) → other.1[k]? = some (some y) → False) ∧
    (∀ k < 2, ∃ provider ∈ providers, ∃ x, provider.1[k]? = some (some x)) ∧
    ∃ columns : Fin 3 → List (Rep3PrimeFieldShare (ℤ)),
      (∀ j, buildFromSources
          (partySources counting "x" providers j : List (SerializeableSharedRep3Input (ℤ) Unit)) =
        .ok ⟨.new, (BTreeMap.new.insert "x" (columns j)).2⟩) ∧
      (∀ j, (columns j).length = 2) ∧
      ∀ provider ∈ providers, ∀ (k : ℕ) (x : ℤ), provider.1[k]? = some (some x) →
        ∃ shares, Sharing.IsSharing x shares ∧ ∀ j, (columns j)[k]? = some (shares j) :=
  ⟨by decide, by decide, providers_apart, providers_cover,
    maybeShare_then_build counting "x" providers 2 (by decide) (by decide) providers_apart
      providers_cover⟩

end CoSnarks.Soundness.Pipeline
