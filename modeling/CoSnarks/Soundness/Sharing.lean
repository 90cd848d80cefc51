import Mathlib.Algebra.Group.Int
import Mathlib.Tactic.Abel
import Mathlib.Tactic.FinCases
import CoSnarks.Model.Circom.Sharing

/-! # What sharing guarantees

Every sharing of a known value is a replicated sharing of it, and a party alone learns nothing:
moving the one draw it does not see maps the sharings of one secret onto those of another with
the same view. Of a partly known column a party learns only which positions are known.
-/

namespace CoSnarks.Soundness.Sharing

open CoSnarks.Model.Circom Rep3

variable {F R : Type} [AddCommGroup F]

/-- `shares` is a replicated sharing of `val`: the parties' own sub-shares add up to `val`, and
each party's second sub-share is the first one of the party before it. -/
structure IsSharing (val : F) (shares : Fin 3 → Rep3PrimeFieldShare F) : Prop where
  combine : combineFieldElement shares = val
  replicated : ∀ i, (shares (i + 1)).b = (shares i).a

theorem isSharing_shareDrawn (val a b : F) : IsSharing val (shareDrawn val a b) where
  combine := combineFieldElement_shareDrawn val a b
  replicated i := by fin_cases i <;> rfl

section Generator

variable (rand : R → F × R) {S : Type} {drawn : F → F → F → Fin 3 → S}

omit [AddCommGroup F] in
theorem length_shareMaybeEach (share : F → R → (Fin 3 → S) × R) (vals : List (Option F)) (rng : R)
    (i : Fin 3) : ((shareMaybeEach share vals rng).1 i).length = vals.length := by
  induction vals generalizing rng with
  | nil => rfl
  | cons head rest ih => cases head <;> simp [shareMaybeEach, ih]

/-- A partial column is shared position by position: an unknown position stays unknown for every
party, and a known one holds a split of its value. -/
theorem shareMaybeEach_getElem? {P : F → (Fin 3 → S) → Prop}
    (splits : ∀ val a b, P val (drawn val a b)) (vals : List (Option F)) (rng : R) (k : ℕ) :
    ∃ shares, (∀ val, vals[k]? = some (some val) → P val shares) ∧
      ∀ i, ((shareMaybeEach (drawAndShare rand drawn) vals rng).1 i)[k]? =
        vals[k]?.map (Option.map fun _ => shares i) := by
  induction vals generalizing rng k with
  | nil => exact ⟨drawn 0 0 0, by simp, fun i => rfl⟩
  | cons head rest ih =>
    cases k with
    | zero =>
      cases head with
      | none => exact ⟨drawn 0 0 0, by simp, fun i => by simp [shareMaybeEach]⟩
      | some val =>
        refine ⟨drawn val (rand rng).1 (rand (rand rng).2).1, fun other same => ?_,
          fun i => by simp [shareMaybeEach, drawAndShare]⟩
        simp only [List.getElem?_cons_zero, Option.some.injEq] at same
        exact same ▸ splits ..
    | succ k =>
      simp only [List.getElem?_cons_succ]
      cases head with
      | none =>
        obtain ⟨shares, holds, located⟩ := ih rng k
        exact ⟨shares, holds, fun i => by
          simpa only [shareMaybeEach, List.getElem?_cons_succ] using located i⟩
      | some val =>
        obtain ⟨shares, holds, located⟩ := ih (rand (rand rng).2).2 k
        exact ⟨shares, holds, fun i => by
          simpa only [shareMaybeEach, drawAndShare, List.getElem?_cons_succ] using located i⟩

end Generator

section Privacy

/-- The draw party `i` does not see, moved by `delta`: party `0` sees `a` and `c`, so `b` moves;
party `1` sees `b` and `a`, so nothing moves; party `2` sees `c` and `b`, so `a` moves. -/
private def shiftDraw (delta : F) (i : Fin 3) (draw : F × F) : F × F :=
  ![(draw.1, draw.2 + delta), draw, (draw.1 + delta, draw.2)] i

/-- Under the shifted draw, party `i`'s pair for the secret `val'` is its pair for `val`. -/
private theorem shareDrawn_shiftDraw (val val' : F) (i : Fin 3) (draw : F × F) :
    shareDrawn val' (shiftDraw (val' - val) i draw).1 (shiftDraw (val' - val) i draw).2 i =
      shareDrawn val draw.1 draw.2 i := by
  fin_cases i <;> simp [shareDrawn, shiftDraw] <;> abel

private theorem shiftDraw_neg (delta : F) (i : Fin 3) (draw : F × F) :
    shiftDraw (-delta) i (shiftDraw delta i draw) = draw := by
  fin_cases i <;> simp [shiftDraw]

/-- Each draw of a sequence shifted by the difference at its position. -/
private def shiftDraws (i : Fin 3) : List F → List (F × F) → List (F × F)
  | [], draws => draws
  | _ :: _, [] => []
  | delta :: deltas, draw :: draws => shiftDraw delta i draw :: shiftDraws i deltas draws

private theorem length_shiftDraws (i : Fin 3) :
    ∀ (deltas : List F) (draws : List (F × F)), (shiftDraws i deltas draws).length = draws.length
  | [], _ | _ :: _, [] => rfl
  | _ :: deltas, _ :: draws => congrArg Nat.succ (length_shiftDraws i deltas draws)

private theorem shiftDraws_neg (i : Fin 3) :
    ∀ (deltas : List F) (draws : List (F × F)),
      shiftDraws i (deltas.map Neg.neg) (shiftDraws i deltas draws) = draws
  | [], _ | _ :: _, [] => rfl
  | delta :: deltas, draw :: draws => by
    simp only [List.map_cons, shiftDraws, shiftDraw_neg, shiftDraws_neg i deltas draws]

/-- Shifting draws position by position is a bijection of draw sequences. -/
private def shiftDrawsEquiv (i : Fin 3) (deltas : List F) : List (F × F) ≃ List (F × F) where
  toFun := shiftDraws i deltas
  invFun := shiftDraws i (deltas.map Neg.neg)
  left_inv := shiftDraws_neg i deltas
  right_inv draws := by
    simpa only [List.map_map, Function.comp_def, neg_neg, List.map_id'] using
      shiftDraws_neg i (deltas.map Neg.neg) draws

/-- With the shifted draws, party `i`'s shares of `vals'` are its shares of `vals`. -/
private theorem zipWith_shiftDraws (i : Fin 3) :
    ∀ (vals vals' : List F), vals'.length = vals.length → ∀ draws : List (F × F),
      List.zipWith (fun val draw => shareDrawn val draw.1 draw.2 i) vals'
          (shiftDraws i (List.zipWith (· - ·) vals' vals) draws) =
        List.zipWith (fun val draw => shareDrawn val draw.1 draw.2 i) vals draws
  | [], [], _, _ => rfl
  | _ :: _, _ :: _, _, [] => rfl
  | val :: vals, val' :: vals', same, draw :: draws => by
    simp only [List.zipWith_cons_cons, shiftDraws, shareDrawn_shiftDraw,
      zipWith_shiftDraws i vals vals' (Nat.succ.inj same) draws]

/-- One party's shares of two columns of one length agree once the draws of the second are a
fixed length-preserving bijection of the first's: the party learns nothing. -/
theorem shareFieldElements_private (i : Fin 3) (vals vals' : List F)
    (same : vals'.length = vals.length) :
    ∃ e : List (F × F) ≃ List (F × F), (∀ draws, (e draws).length = draws.length) ∧
      ∀ (rand : R → F × R) (rng rng' : R),
        (drawPairs rand vals.length rng').1 = e (drawPairs rand vals.length rng).1 →
          (shareFieldElements rand vals' rng').1 i = (shareFieldElements rand vals rng).1 i := by
  refine ⟨shiftDrawsEquiv i (List.zipWith (· - ·) vals' vals), length_shiftDraws i _,
    fun rand rng rng' drawn => ?_⟩
  simp only [shareFieldElements, shareFieldElement, shareEach_drawAndShare, same, drawn]
  exact zipWith_shiftDraws i vals vals' same _

end Privacy

/-- Party `0`'s shares of `[1]` and of `[5]` over the integers match under shifted draws. -/
theorem shareFieldElements_private_of_single :
    [(5 : ℤ)].length = [(1 : ℤ)].length ∧
    ∃ e : List (ℤ × ℤ) ≃ List (ℤ × ℤ),
      (∀ draws, (e draws).length = draws.length) ∧
      ∀ (rand : ℕ → ℤ × ℕ) (rng rng' : ℕ),
        (drawPairs rand [(1 : ℤ)].length rng').1 =
            e (drawPairs rand [(1 : ℤ)].length rng).1 →
          (shareFieldElements rand [(5 : ℤ)] rng').1 0 =
            (shareFieldElements rand [(1 : ℤ)] rng).1 0 :=
  ⟨rfl, shareFieldElements_private 0 [1] [5] rfl⟩

section PartialPrivacy

/-- The positions of a column, known (`true`) or not, filled in order from `shares`: a known
position takes the next share, an unknown one stays unknown. -/
private def fill {S : Type} : List Bool → List S → List (Option S)
  | [], _ => []
  | false :: known, shares => none :: fill known shares
  | true :: known, share :: shares => some share :: fill known shares
  | true :: _, [] => []

omit [AddCommGroup F] in
/-- The known elements of a partly known column are as many as its known positions. -/
private theorem length_filterMap_id (vals : List (Option F)) :
    (vals.filterMap id).length = (vals.map Option.isSome).count true := by
  induction vals with
  | nil => rfl
  | cons head vals ih => cases head <;> simp [ih]

omit [AddCommGroup F] in
/-- Sharing a partly known column is sharing its known elements in order, each party's shares
put back at the known positions. -/
private theorem shareMaybeEach_eq_fill {S : Type} (share : F → R → (Fin 3 → S) × R)
    (vals : List (Option F)) (rng : R) :
    shareMaybeEach share vals rng =
      (fun i => fill (vals.map Option.isSome) ((shareEach share (vals.filterMap id) rng).1 i),
        (shareEach share (vals.filterMap id) rng).2) := by
  induction vals generalizing rng with
  | nil => rfl
  | cons head vals ih =>
    cases head with
    | none => simp [shareMaybeEach, ih, fill]
    | some val => simp [shareMaybeEach, shareEach, ih, fill]

/-- `maybe_share_rep3` of two columns known at the same positions gives a party the same shares
under a length-preserving bijection of draws: it learns only which positions are known. -/
theorem maybeShareRep3_private (i : Fin 3) (vals vals' : List (Option F))
    (pattern : vals'.map Option.isSome = vals.map Option.isSome) :
    ∃ e : List (F × F) ≃ List (F × F), (∀ draws, (e draws).length = draws.length) ∧
      ∀ (rand : R → F × R) (rng rng' : R),
        (drawPairs rand (vals.filterMap id).length rng').1 =
            e (drawPairs rand (vals.filterMap id).length rng).1 →
          (SerializeableSharedRep3Input.maybeShareRep3 rand vals' rng' false).1 i =
            (SerializeableSharedRep3Input.maybeShareRep3 rand vals rng false).1 i := by
  have same : (vals'.filterMap id).length = (vals.filterMap id).length := by
    rw [length_filterMap_id, length_filterMap_id, pattern]
  refine ⟨shiftDrawsEquiv i (List.zipWith (· - ·) (vals'.filterMap id) (vals.filterMap id)),
    length_shiftDraws i _, fun rand rng rng' drawn => ?_⟩
  simp only [SerializeableSharedRep3Input.maybeShareRep3, shareMaybeFieldElements,
    shareMaybeEach_eq_fill, shareFieldElement, shareEach_drawAndShare, pattern, same, drawn,
    Bool.false_eq_true, if_false]
  congr 2
  exact zipWith_shiftDraws i _ _ same _

end PartialPrivacy

/-- Party `0`'s shares of `[5, ?]` and of `[1, ?]` over the integers match under shifted draws. -/
theorem maybeShareRep3_private_of_single :
    [some (5 : ℤ), none].map Option.isSome = [some (1 : ℤ), none].map Option.isSome ∧
    ∃ e : List (ℤ × ℤ) ≃ List (ℤ × ℤ), (∀ draws, (e draws).length = draws.length) ∧
      ∀ (rand : ℕ → ℤ × ℕ) (rng rng' : ℕ),
        (drawPairs rand ([some (1 : ℤ), none].filterMap id).length rng').1 =
            e (drawPairs rand ([some (1 : ℤ), none].filterMap id).length rng).1 →
          (SerializeableSharedRep3Input.maybeShareRep3 rand [some 5, none] rng' false).1 0 =
            (SerializeableSharedRep3Input.maybeShareRep3 rand [some 1, none] rng false).1 0 :=
  ⟨rfl, maybeShareRep3_private 0 [some 1, none] [some 5, none] rfl⟩

end CoSnarks.Soundness.Sharing
