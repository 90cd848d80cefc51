import Mathlib.Data.ZMod.Defs

/-! # Roots of unity for the proving domains

`utils::roots_of_unity` finds the least quadratic non-residue `q` of the scalar field by counting
up from one, raises it to the odd part `TRACE` of `p - 1`, and squares the result `TWO_ADICITY`
times; read backwards, the squarings are roots of unity of order `1, 2, 4, …, 2 ^ TWO_ADICITY`.
The prime field is `ZMod p`, and `TWO_ADICITY` and `TRACE` are parameters.
-/

namespace CoSnarks.Model.Circom.Utils

/-- Modelled from ark-ff: `LegendreSymbol`, the three answers of a quadratic-character test. -/
inductive LegendreSymbol
  | zero
  | quadraticResidue
  | quadraticNonResidue
deriving DecidableEq, Repr

variable {p : Nat}

/-- Modelled from ark-ff: `Field::legendre` of a prime field, the power `q ^ ((p - 1) / 2)` read
as zero, one or anything else. -/
def legendre (q : ZMod p) : LegendreSymbol :=
  let s := q ^ ((p - 1) / 2)
  if s = 0 then .zero else if s = 1 then .quadraticResidue else .quadraticNonResidue

/-- The `while` loop over candidates `q, q + 1, …`, trying at most `fuel` of them. Started with
`p` candidates it has tried every field element, so `none` stands for a loop that never ends. -/
def findNonResidue : Nat → ZMod p → Option (ZMod p)
  | 0, _ => none
  | fuel + 1, q =>
    if legendre q ≠ .quadraticNonResidue then findNonResidue fuel (q + 1) else some q

/-- One pass of the `for` loop: `roots[i] = roots[i - 1].square()`; the loop only visits indices
`i` with `i - 1` in bounds. -/
def squareAt (roots : List (ZMod p)) (i : Nat) : List (ZMod p) :=
  roots.set i (roots.getD (i - 1) 0 ^ 2)

/-- `utils::roots_of_unity` for the field `ZMod p` with `TWO_ADICITY = two_adicity` and
`TRACE = trace`. -/
def rootsOfUnity (p two_adicity trace : Nat) : Option (ZMod p × List (ZMod p)) := do
  let roots := List.replicate (two_adicity + 1) (0 : ZMod p)
  let q ← findNonResidue p 1
  let z := q ^ trace
  let roots := roots.set 0 z
  let roots := (List.range' 1 (roots.length - 1)).foldl squareAt roots
  pure (q, roots.reverse)

/-- The loop stops at the first non-residue among the candidates it tries. -/
theorem findNonResidue_eq_some {fuel start n : Nat} (reached : start ≤ n)
    (within : n < start + fuel) (found : legendre (n : ZMod p) = .quadraticNonResidue)
    (before : ∀ m, start ≤ m → m < n → legendre (m : ZMod p) ≠ .quadraticNonResidue) :
    findNonResidue fuel (start : ZMod p) = some (n : ZMod p) := by
  induction fuel generalizing start with
  | zero => omega
  | succ fuel ih =>
    rw [findNonResidue]
    by_cases first : start = n
    · subst first
      simp [found]
    · rw [if_pos (before start le_rfl (by omega)), ← Nat.cast_succ]
      exact ih (by omega) (by omega) fun m low below => before m (by omega) below

/-- After the passes at `1, …, k`, the roots begin `z, z ^ 2, z ^ 4, …, z ^ 2 ^ k` and are zero
from there on. -/
theorem foldl_squareAt (z : ZMod p) (n : Nat) {k : Nat} (within : k ≤ n) :
    (List.range' 1 k).foldl squareAt ((List.replicate (n + 1) 0).set 0 z) =
      (List.range (n + 1)).map fun j => if j ≤ k then z ^ 2 ^ j else 0 := by
  induction k with
  | zero =>
    refine List.ext_getElem (by simp) fun j _ _ => ?_
    cases j <;> simp
  | succ k ih =>
    rw [List.range'_concat, List.foldl_append, ih (by omega)]
    refine List.ext_getElem (by simp [squareAt]) fun j _ _ => ?_
    have previous : (List.range (n + 1))[1 + 1 * k - 1]? = some k :=
      (congrArg _ (by omega)).trans (List.getElem?_range (by omega))
    simp only [squareAt, List.foldl_cons, List.foldl_nil, List.getElem_set, List.getElem_map,
      List.getElem_range, List.getD_eq_getElem?_getD, List.getElem?_map, previous,
      Option.map_some', Option.getD_some, le_refl, if_true]
    by_cases last : j = k + 1
    · rw [if_pos (by omega), if_pos (by omega), last, ← pow_mul, ← pow_succ]
    · rw [if_neg (by omega)]
      split_ifs <;> first | omega | rfl

/-- The whole function: the first non-residue `q`, and the squarings of `q ^ trace` read
backwards. -/
theorem rootsOfUnity_eq (p two_adicity trace : Nat) :
    rootsOfUnity p two_adicity trace = (findNonResidue p 1).map fun q =>
      (q, ((List.range (two_adicity + 1)).map fun j => (q ^ trace) ^ 2 ^ j).reverse) := by
  simp only [rootsOfUnity]
  cases findNonResidue p (1 : ZMod p) with
  | none => rfl
  | some q =>
    have squarings : ∀ j ∈ List.range (two_adicity + 1),
        (if j ≤ two_adicity then (q ^ trace) ^ 2 ^ j else 0) = (q ^ trace) ^ 2 ^ j :=
      fun j member => if_pos (Nat.le_of_lt_succ (List.mem_range.mp member))
    simp only [List.length_set, List.length_replicate, Nat.add_sub_cancel,
      foldl_squareAt _ _ le_rfl, Option.bind_eq_bind, Option.some_bind, Option.map_some',
      List.map_congr_left squarings]
    rfl

/-- Over `ZMod 17`, `TWO_ADICITY = 4` and `TRACE = 1`: `3` is the first non-residue. -/
example : rootsOfUnity 17 4 1 = some (3, [1, 16, 13, 9, 3]) := by decide

end CoSnarks.Model.Circom.Utils
