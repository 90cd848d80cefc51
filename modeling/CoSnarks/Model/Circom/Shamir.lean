import Mathlib.LinearAlgebra.Lagrange
import CoSnarks.Model.Circom.Sharing

/-! # Sharing a witness among any number of parties by polynomials

`SharedWitness::share_shamir` cuts the witness as `share_rep3` does and shares the suffix with
`mpc-core`'s `shamir::share_field_elements`, rebuilt here from the specification: each value is
the constant term of a polynomial of degree `degree` with drawn coefficients, and party `i` holds
its value at `i + 1`. Reconstruction is Lagrange interpolation at zero.
-/

namespace CoSnarks.Model.Circom

/-- Modelled from the spec: `ShamirPrimeFieldShare<F>`, a party's value of one sharing
polynomial. -/
structure ShamirPrimeFieldShare (F : Type) where
  a : F
deriving DecidableEq, Repr

namespace Shamir

variable {F R : Type} [Field F] (rand : R → F × R)

/-- The random coefficients of one sharing polynomial, drawn one after another. -/
def drawCoefficients : ℕ → R → List F × R
  | 0, rng => ([], rng)
  | n + 1, rng =>
    let (coeff, rng) := rand rng
    let (coeffs, rng) := drawCoefficients n rng
    (coeff :: coeffs, rng)

/-- `DensePolynomial::evaluate`: Horner's rule over the coefficients, the constant one first. -/
def evaluate (coeffs : List F) (point : F) : F :=
  coeffs.foldr (fun coeff result => result * point + coeff) 0

/-- Modelled from the spec: `shamir::core::share`, the values at `1, …, num_shares` of a
polynomial of degree `degree` with `secret` as its constant term. -/
def share (secret : F) (num_shares degree : ℕ) (rng : R) : List F × R :=
  let (coeffs, rng) := drawCoefficients rand degree rng
  ((List.range num_shares).map fun i => evaluate (secret :: coeffs) ((i + 1 : ℕ) : F), rng)

/-- The loop of `shamir::share_field_elements`: each value's shares are pushed onto the parties'
vectors, the `i`-th share onto the `i`-th vector. -/
def pushShares (degree num_parties : ℕ) : List (List (ShamirPrimeFieldShare F)) → List F → R →
    List (List (ShamirPrimeFieldShare F)) × R
  | result, [], rng => (result, rng)
  | result, val :: vals, rng =>
    let (shares, rng) := share rand val num_parties degree rng
    pushShares degree num_parties (List.zipWith (fun r s => r ++ [⟨s⟩]) result shares) vals rng

/-- Modelled from the spec: `shamir::share_field_elements`, one vector of shares per party. -/
def shareFieldElements (vals : List F) (degree num_parties : ℕ) (rng : R) :
    List (List (ShamirPrimeFieldShare F)) × R :=
  pushShares rand degree num_parties (List.replicate num_parties []) vals rng

/-- One pass of the inner loop of `lagrange_from_coeff` for the point `i`: every other point `j`
multiplies the numerator by `j` and the denominator by `j - i`. -/
def lagrangeStep (i : ℕ) (acc : F × F) (j : ℕ) : F × F :=
  if i = j then acc else (acc.1 * (j : F), acc.2 * ((j : F) - i))

/-- Modelled from the spec: `shamir::core::lagrange_from_coeff`, the weight at zero of each party
point `i` among `coeffs`: the product of the other points over the product of their distances
from `i`. -/
def lagrangeFromCoeff (coeffs : List ℕ) : List F :=
  coeffs.map fun i =>
    let (num, den) := coeffs.foldl (lagrangeStep i) (1, 1)
    num * den⁻¹

/-- Modelled from the spec: `shamir::core::reconstruct`, the shares summed with their weights. -/
def reconstruct (shares lagrange : List F) : F :=
  (shares.zip lagrange).foldl (fun res pair => res + pair.1 * pair.2) 0

/-- The coefficients that sharing `n` values draws, one batch of `degree` per value, in order. -/
def drawBatches (degree : ℕ) : ℕ → R → List (List F) × R
  | 0, rng => ([], rng)
  | n + 1, rng =>
    let (coeffs, rng) := drawCoefficients rand degree rng
    let (rest, rng) := drawBatches degree n rng
    (coeffs :: rest, rng)

/-- Party `p`'s shares of `vals`, the `k`-th from the `k`-th batch of coefficients. -/
def column (p : ℕ) (vals : List F) (batches : List (List F)) : List (ShamirPrimeFieldShare F) :=
  List.zipWith (fun val coeffs => ⟨evaluate (val :: coeffs) ((p + 1 : ℕ) : F)⟩) vals batches

omit [Field F] in
@[simp] theorem length_drawBatches (degree n : ℕ) (rng : R) :
    (drawBatches rand degree n rng).1.length = n := by
  induction n generalizing rng with
  | zero => rfl
  | succ n ih => simp [drawBatches, ih]

/-- Sharing pushes onto every party's vector its column: the values of the polynomials, one per
value, that the draws make, whatever the values are. -/
theorem pushShares_eq (degree num_parties : ℕ) (vals : List F) :
    ∀ (result : List (List (ShamirPrimeFieldShare F))) (rng : R),
      result.length = num_parties →
      pushShares rand degree num_parties result vals rng =
        (result.mapIdx fun p shares =>
            shares ++ column p vals (drawBatches rand degree vals.length rng).1,
          (drawBatches rand degree vals.length rng).2) := by
  induction vals with
  | nil =>
    intro result rng _
    simp only [pushShares, drawBatches, column, List.zipWith_nil_left, List.append_nil]
    exact Prod.ext (List.ext_getElem? fun p => by simp) rfl
  | cons val vals ih =>
    intro result rng length
    have pushed : (List.zipWith (fun r s => r ++ [⟨s⟩]) result
        ((List.range num_parties).map fun i =>
          evaluate (val :: (drawCoefficients rand degree rng).1) ((i + 1 : ℕ) : F))).length =
        num_parties := by simp [length]
    simp only [pushShares, share, ih _ _ pushed, drawBatches, List.length_cons, Prod.mk.injEq,
      and_true]
    refine List.ext_getElem? fun p => ?_
    simp only [List.getElem?_mapIdx, List.getElem?_zipWith, List.getElem?_map,
      List.getElem?_range]
    rcases Nat.lt_or_ge p num_parties with within | beyond
    · obtain ⟨shares, found⟩ : ∃ shares, result[p]? = some shares :=
        ⟨_, List.getElem?_eq_getElem (length ▸ within)⟩
      simp [found, within, column]
    · simp [List.getElem?_eq_none (length ▸ beyond), Nat.not_lt.mpr beyond]

/-- Party `p` of `num_parties` ends up with its column of the whole input. -/
theorem shareFieldElements_eq (vals : List F) (degree num_parties : ℕ) (rng : R) :
    shareFieldElements rand vals degree num_parties rng =
      ((List.range num_parties).map fun p => column p vals (drawBatches rand degree vals.length rng).1,
        (drawBatches rand degree vals.length rng).2) := by
  rw [shareFieldElements, pushShares_eq rand degree num_parties vals _ rng (List.length_replicate _ _)]
  refine Prod.ext (List.ext_getElem? fun p => ?_) rfl
  rcases Nat.lt_or_ge p num_parties with within | beyond
  · simp [within]
  · rw [List.getElem?_eq_none (by simpa using beyond), List.getElem?_eq_none (by simpa using beyond)]

end Shamir

namespace SharedWitness

variable {F R : Type} [Field F] (rand : R → F × R)

/-- `SharedWitness::share_shamir`: the public prefix goes to every party, the rest is shared by
polynomials of degree `degree`, one result per party. -/
def shareShamir (witness : Witness F) (num_pub_inputs degree num_parties : ℕ) (rng : R) :
    Except Failure (List (SharedWitness F (ShamirPrimeFieldShare F)) × R) := do
  let (public_inputs, witness) ← splitPublic witness.values num_pub_inputs
  let (shares, rng) := Shamir.shareFieldElements rand witness degree num_parties rng
  pure (shares.map fun share => ⟨public_inputs, share⟩, rng)

end SharedWitness

end CoSnarks.Model.Circom
