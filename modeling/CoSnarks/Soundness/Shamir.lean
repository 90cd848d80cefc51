import Mathlib.LinearAlgebra.Lagrange
import CoSnarks.Model.Circom.Shamir

/-! # Shamir sharing is recoverable from any `degree + 1` parties

`reconstruct` evaluates at zero the interpolant of the shares, since the weights of
`lagrange_from_coeff` are the Lagrange basis at zero. A sharing polynomial has fewer coefficients
than there are points, so it is its own interpolant (`Lagrange.eq_interpolate`), and zero gives
back the secret. Any `degree` parties away from zero learn nothing.
-/

namespace CoSnarks.Soundness.Shamir

open CoSnarks.Model.Circom Shamir Polynomial

variable {F R : Type} [Field F]

section Polynomials

@[simp] theorem evaluate_nil (point : F) : evaluate [] point = 0 :=
  rfl

@[simp] theorem evaluate_cons (coeff : F) (coeffs : List F) (point : F) :
    evaluate (coeff :: coeffs) point = evaluate coeffs point * point + coeff :=
  rfl

/-- Horner's rule computes the sum of the coefficients times the powers of the point. -/
theorem evaluate_eq_sum (coeffs : List F) (point : F) :
    evaluate coeffs point = ∑ i ∈ Finset.range coeffs.length, coeffs.getD i 0 * point ^ i := by
  induction coeffs with
  | nil => simp
  | cons coeff coeffs ih =>
    rw [evaluate_cons, ih, List.length_cons, Finset.sum_range_succ', Finset.sum_mul]
    simp [pow_succ, mul_assoc]

/-- The coefficients as a polynomial of degree below their number, with the same values. -/
theorem evaluate_eq_eval (coeffs : List F) :
    ∃ f : F[X], f.degree < coeffs.length ∧ ∀ point, evaluate coeffs point = f.eval point :=
  ⟨∑ i : Fin coeffs.length, C (coeffs.getD i 0) * X ^ (i : ℕ), degree_sum_fin_lt _, fun point => by
    rw [evaluate_eq_sum, ← Fin.sum_univ_eq_sum_range, eval_finset_sum]
    simp⟩

end Polynomials

section Lagrange

private theorem foldl_lagrangeStep (i : ℕ) (coeffs : List ℕ) (acc : F × F) :
    coeffs.foldl (lagrangeStep i) acc =
      (acc.1 * ((coeffs.filter (· ≠ i)).map (Nat.cast : ℕ → F)).prod,
        acc.2 * ((coeffs.filter (· ≠ i)).map fun j : ℕ => (j : F) - i).prod) := by
  induction coeffs generalizing acc with
  | nil => simp
  | cons j coeffs ih =>
    by_cases same : i = j
    · subst same
      simp [lagrangeStep, ih]
    · simp [lagrangeStep, same, Ne.symm same, ih, mul_assoc]

/-- The weights of `lagrange_from_coeff` are the Lagrange basis polynomials of the points,
evaluated at zero. -/
theorem lagrangeFromCoeff_eq (coeffs : List ℕ) (nodup : coeffs.Nodup) :
    lagrangeFromCoeff coeffs =
      coeffs.map fun i => (Lagrange.basis coeffs.toFinset (Nat.cast : ℕ → F) i).eval 0 := by
  refine List.map_congr_left fun i _ => ?_
  have others : (coeffs.filter (· ≠ i)).toFinset = coeffs.toFinset.erase i := by
    ext j
    simp [and_comm]
  have prod_others : ∀ g : ℕ → F, ((coeffs.filter (· ≠ i)).map g).prod =
      ∏ j ∈ coeffs.toFinset.erase i, g j := fun g => by
    rw [← others, List.prod_toFinset g (nodup.filter _)]
  simp only [foldl_lagrangeStep, one_mul, prod_others, Lagrange.basis, eval_prod,
    Lagrange.basisDivisor, eval_mul, eval_C, eval_sub, eval_X, ← div_eq_mul_inv,
    ← Finset.prod_div_distrib]
  refine Finset.prod_congr rfl fun j _ => ?_
  rw [div_eq_mul_inv, ← neg_sub (j : F) i, inv_neg]
  ring

private theorem foldl_add_weighted (g w : ℕ → F) (points : List ℕ) (acc : F) :
    points.foldl (fun res i => res + g i * w i) acc = acc + (points.map fun i => g i * w i).sum := by
  induction points generalizing acc with
  | nil => simp
  | cons i points ih => simp [ih, add_assoc]

/-- Lagrange's weights at zero recover the constant term of any polynomial with no more
coefficients than there are distinct points from its values at the points. -/
theorem reconstruct_evaluate (coeffs : List F) (points : List ℕ)
    (distinct : (points.map (Nat.cast : ℕ → F)).Nodup) (enough : coeffs.length ≤ points.length) :
    reconstruct (points.map fun i : ℕ => evaluate coeffs i) (lagrangeFromCoeff points) =
      evaluate coeffs 0 := by
  have nodup : points.Nodup := distinct.of_map _
  obtain ⟨f, small, values⟩ := evaluate_eq_eval coeffs
  have injective : Set.InjOn (Nat.cast : ℕ → F) points.toFinset := fun a ha b hb same =>
    List.inj_on_of_nodup_map distinct (List.mem_toFinset.mp ha) (List.mem_toFinset.mp hb) same
  have interpolated := Lagrange.eq_interpolate injective (small.trans_le (by
    rw [List.toFinset_card_of_nodup nodup]
    exact_mod_cast enough))
  calc reconstruct (points.map fun i : ℕ => evaluate coeffs i) (lagrangeFromCoeff points)
      = ∑ i ∈ points.toFinset, f.eval (i : F) *
          (Lagrange.basis points.toFinset (Nat.cast : ℕ → F) i).eval 0 := by
        rw [lagrangeFromCoeff_eq points nodup, List.sum_toFinset _ nodup, reconstruct,
          List.zip_map', List.foldl_map]
        simp only [values]
        exact (foldl_add_weighted _ _ points 0).trans (zero_add _)
    _ = (Lagrange.interpolate points.toFinset (Nat.cast : ℕ → F) fun i => f.eval (i : F)).eval 0 := by
        simp [Lagrange.interpolate_apply, eval_finset_sum]
    _ = evaluate coeffs 0 := by rw [← interpolated, values]

end Lagrange

section Sharing

variable (rand : R → F × R)

omit [Field F] in
@[simp] theorem length_drawCoefficients (n : ℕ) (rng : R) :
    (drawCoefficients rand n rng).1.length = n := by
  induction n generalizing rng with
  | zero => rfl
  | succ n ih => simp [drawCoefficients, ih]

omit [Field F] in
private theorem length_of_mem_drawBatches {degree : ℕ} :
    ∀ {n : ℕ} {rng : R}, ∀ coeffs ∈ (drawBatches rand degree n rng).1, coeffs.length = degree
  | 0, _, _, member => nomatch member
  | n + 1, rng, coeffs, member => by
    simp only [drawBatches, List.mem_cons] at member
    rcases member with rfl | member
    · exact length_drawCoefficients rand degree rng
    · exact length_of_mem_drawBatches _ member

/-- Any `degree + 1` parties with distinct points recover each value from the columns of
polynomials with `degree` random coefficients. -/
private theorem columns_recover {degree num_parties : ℕ} (vals : List F) (batches : List (List F))
    (drawn : ∀ coeffs ∈ batches, coeffs.length = degree) (covered : vals.length ≤ batches.length)
    (parties : List ℕ) (within : ∀ p ∈ parties, p < num_parties)
    (enough : degree + 1 ≤ parties.length)
    (distinct : (parties.map fun p => ((p + 1 : ℕ) : F)).Nodup) (k : ℕ) (val : F)
    (known : vals[k]? = some val) :
    ∃ held : List F,
      parties.map (fun p => ((((List.range num_parties).map fun p => column p vals batches)[p]?).bind
        (·[k]?)).map ShamirPrimeFieldShare.a) = held.map some ∧
      reconstruct held (lagrangeFromCoeff (parties.map (· + 1))) = val := by
  have drawnAt : k < batches.length :=
    (List.getElem?_eq_some_iff.mp known).1.trans_le covered
  obtain ⟨coeffs, found⟩ : ∃ coeffs, batches[k]? = some coeffs :=
    ⟨_, List.getElem?_eq_getElem drawnAt⟩
  refine ⟨(parties.map (· + 1)).map fun i : ℕ => evaluate (val :: coeffs) i, ?_, ?_⟩
  · simp only [List.map_map]
    refine List.map_congr_left fun p member => ?_
    simp [within p member, column, List.getElem?_zipWith, known, found]
  · rw [reconstruct_evaluate (val :: coeffs) _ (by simpa [List.map_map, Function.comp_def] using distinct)
      (by simpa [drawn coeffs (List.getElem?_mem found)] using enough)]
    simp

/-- `share_field_elements` gives each of the `num_parties` parties one share of every value, and
any `degree + 1` parties with distinct points recover every value from their shares. -/
theorem shareFieldElements_recovers (vals : List F) (degree num_parties : ℕ) (rng : R)
    (parties : List ℕ) (within : ∀ p ∈ parties, p < num_parties)
    (enough : degree + 1 ≤ parties.length)
    (distinct : (parties.map fun p => ((p + 1 : ℕ) : F)).Nodup) :
    (shareFieldElements rand vals degree num_parties rng).1.length = num_parties ∧
    (∀ shares ∈ (shareFieldElements rand vals degree num_parties rng).1,
      shares.length = vals.length) ∧
    ∀ (k : ℕ) (val : F), vals[k]? = some val → ∃ held : List F,
      parties.map (fun p => (((shareFieldElements rand vals degree num_parties rng).1[p]?).bind
        (·[k]?)).map ShamirPrimeFieldShare.a) = held.map some ∧
      reconstruct held (lagrangeFromCoeff (parties.map (· + 1))) = val := by
  rw [shareFieldElements_eq]
  refine ⟨by simp, ?_, columns_recover vals _ (length_of_mem_drawBatches rand) (by simp) parties
    within enough distinct⟩
  simp only [List.mem_map, List.mem_range]
  rintro _ ⟨p, -, rfl⟩
  simp [column]

end Sharing

/-- A generator counting up from its state, as rationals. -/
def counting (r : ℕ) : ℚ × ℕ := (r, r + 1)

/-- Parties `0` and `2` of three recover both values shared by polynomials of degree one. -/
theorem shareFieldElements_recovers_of_two_of_three :
    (∀ p ∈ [0, 2], p < 3) ∧ 1 + 1 ≤ [0, 2].length ∧
    ([0, 2].map fun p => ((p + 1 : ℕ) : ℚ)).Nodup ∧
    (shareFieldElements counting [5, 11] 1 3 0).1.length = 3 ∧
    (∀ shares ∈ (shareFieldElements counting [5, 11] 1 3 0).1, shares.length = [5, 11].length) ∧
    ∀ (k : ℕ) (val : ℚ), [5, 11][k]? = some val → ∃ held : List ℚ,
      [0, 2].map (fun p => (((shareFieldElements counting [5, 11] 1 3 0).1[p]?).bind
        (·[k]?)).map ShamirPrimeFieldShare.a) = held.map some ∧
      reconstruct held (lagrangeFromCoeff ([0, 2].map (· + 1))) = val :=
  ⟨by decide, by decide, by norm_num,
    shareFieldElements_recovers counting [5, 11] 1 3 0 [0, 2] (by decide) (by decide) (by norm_num)⟩

section Privacy

/-- The coefficients of `cs` times `1 + a X`. -/
private def mulLinear (cs : List F) (a : F) : List F :=
  List.zipWith (· + ·) (cs ++ [0]) (0 :: cs.map (a * ·))

/-- The coefficients of the product of `1 - X / x` over the points `x`: one at zero, and zero at
each of the points that is not zero itself. -/
private def vanishing : List F → List F
  | [] => [1]
  | x :: xs => mulLinear (vanishing xs) (-x⁻¹)

/-- The non-constant coefficients of the vanishing polynomial of the points, padded with zeros to
`degree` of them. -/
private def mask (degree : ℕ) (points : List F) : List F :=
  (vanishing points).tail ++ List.replicate (degree - points.length) 0

/-- `cs` plus `delta` times `ms`, position by position, as long as `cs`. -/
private def addScaled (delta : F) : List F → List F → List F
  | [], _ => []
  | c :: cs, [] => c :: cs
  | c :: cs, m :: ms => (c + delta * m) :: addScaled delta cs ms

private theorem evaluate_zipWith_add :
    ∀ (xs ys : List F), xs.length = ys.length → ∀ point,
      evaluate (List.zipWith (· + ·) xs ys) point = evaluate xs point + evaluate ys point
  | [], [], _, _ => by simp
  | x :: xs, y :: ys, same, point => by
    simp only [List.zipWith_cons_cons, evaluate_cons,
      evaluate_zipWith_add xs ys (Nat.succ.inj same) point]
    ring

private theorem evaluate_append_replicate_zero (cs : List F) (n : ℕ) (point : F) :
    evaluate (cs ++ List.replicate n 0) point = evaluate cs point := by
  induction cs with
  | nil =>
    simp only [List.nil_append, evaluate_nil]
    induction n with
    | zero => rfl
    | succ n ih => rw [List.replicate_succ, evaluate_cons, ih, zero_mul, add_zero]
  | cons c cs ih => simp [ih]

private theorem evaluate_map_mul (a : F) (cs : List F) (point : F) :
    evaluate (cs.map (a * ·)) point = a * evaluate cs point := by
  induction cs with
  | nil => simp
  | cons c cs ih =>
    simp only [List.map_cons, evaluate_cons, ih]
    ring

private theorem evaluate_mulLinear (cs : List F) (a point : F) :
    evaluate (mulLinear cs a) point = evaluate cs point * (1 + a * point) := by
  rw [mulLinear, evaluate_zipWith_add _ _ (by simp), ← List.replicate_one,
    evaluate_append_replicate_zero, evaluate_cons, evaluate_map_mul]
  ring

private theorem evaluate_vanishing (points : List F) (point : F) :
    evaluate (vanishing points) point = (points.map fun x => 1 - x⁻¹ * point).prod := by
  induction points with
  | nil => simp [vanishing]
  | cons x points ih =>
    rw [vanishing, evaluate_mulLinear, ih, List.map_cons, List.prod_cons]
    ring

private theorem vanishing_eq_cons (points : List F) :
    ∃ rest, vanishing points = 1 :: rest ∧ rest.length = points.length := by
  induction points with
  | nil => exact ⟨[], rfl, rfl⟩
  | cons x points ih =>
    obtain ⟨rest, eq, length⟩ := ih
    refine ⟨List.zipWith (· + ·) (rest ++ [0]) ((1 :: rest).map (-x⁻¹ * ·)), ?_, by simp [length]⟩
    rw [vanishing, eq, mulLinear, List.cons_append, List.zipWith_cons_cons, add_zero]

private theorem length_mask {degree : ℕ} {points : List F} (few : points.length ≤ degree) :
    (mask degree points).length = degree := by
  obtain ⟨rest, eq, length⟩ := vanishing_eq_cons points
  simp only [mask, eq, List.tail_cons, List.length_append, List.length_replicate, length]
  omega

/-- With the constant term one, the mask is the vanishing polynomial: zero at each nonzero point
of `points`. -/
private theorem evaluate_one_mask (degree : ℕ) {points : List F} {point : F} (member : point ∈ points)
    (nonzero : point ≠ 0) : evaluate (1 :: mask degree points) point = 0 := by
  obtain ⟨rest, eq, -⟩ := vanishing_eq_cons points
  rw [mask, eq, List.tail_cons, ← List.cons_append, ← eq, evaluate_append_replicate_zero,
    evaluate_vanishing]
  exact List.prod_eq_zero (List.mem_map.mpr ⟨point, member, by rw [inv_mul_cancel₀ nonzero, sub_self]⟩)

private theorem length_addScaled (delta : F) :
    ∀ cs ms : List F, (addScaled delta cs ms).length = cs.length
  | [], _ | _ :: _, [] => rfl
  | _ :: cs, _ :: ms => congrArg Nat.succ (length_addScaled delta cs ms)

private theorem addScaled_neg (delta : F) :
    ∀ cs ms : List F, addScaled (-delta) (addScaled delta cs ms) ms = cs
  | [], _ | _ :: _, [] => rfl
  | c :: cs, m :: ms => by simp [addScaled, addScaled_neg delta cs ms]

private theorem evaluate_addScaled (delta : F) :
    ∀ cs ms : List F, ms.length ≤ cs.length → ∀ point,
      evaluate (addScaled delta cs ms) point = evaluate cs point + delta * evaluate ms point
  | [], [], _, _ => by simp [addScaled]
  | _ :: _, [], _, _ => by simp [addScaled]
  | c :: cs, m :: ms, shorter, point => by
    simp only [addScaled, evaluate_cons,
      evaluate_addScaled delta cs ms (Nat.le_of_succ_le_succ shorter) point]
    ring

/-- Shifting a batch of coefficients by the mask moves the constant term from `val` to `val'`
and keeps the polynomial's value at every nonzero point of `points`. -/
private theorem evaluate_shift {degree : ℕ} {points : List F} (few : points.length ≤ degree)
    (val val' : F) (coeffs : List F) (drawn : coeffs.length = degree) {point : F}
    (member : point ∈ points) (nonzero : point ≠ 0) :
    evaluate (val' :: addScaled (val' - val) coeffs (mask degree points)) point =
      evaluate (val :: coeffs) point := by
  have vanishes := evaluate_one_mask degree member nonzero
  rw [evaluate_cons] at vanishes
  rw [evaluate_cons, evaluate_addScaled _ _ _ (by rw [length_mask few, drawn]), evaluate_cons]
  linear_combination (val' - val) * vanishes

/-- Each batch of a sequence shifted by the mask, scaled by the difference at its position. -/
private def shiftBatches (mask : List F) : List F → List (List F) → List (List F)
  | [], batches => batches
  | _ :: _, [] => []
  | delta :: deltas, coeffs :: batches => addScaled delta coeffs mask :: shiftBatches mask deltas batches

private theorem lengths_shiftBatches (mask : List F) :
    ∀ (deltas : List F) (batches : List (List F)),
      (shiftBatches mask deltas batches).map List.length = batches.map List.length
  | [], _ | _ :: _, [] => rfl
  | delta :: deltas, coeffs :: batches => by
    simp [shiftBatches, length_addScaled, lengths_shiftBatches mask deltas batches]

private theorem shiftBatches_neg (mask : List F) :
    ∀ (deltas : List F) (batches : List (List F)),
      shiftBatches mask (deltas.map Neg.neg) (shiftBatches mask deltas batches) = batches
  | [], _ | _ :: _, [] => rfl
  | delta :: deltas, coeffs :: batches => by
    simp only [List.map_cons, shiftBatches, addScaled_neg, shiftBatches_neg mask deltas batches]

/-- Shifting batches position by position is a bijection of batch sequences. -/
private def shiftBatchesEquiv (mask deltas : List F) : List (List F) ≃ List (List F) where
  toFun := shiftBatches mask deltas
  invFun := shiftBatches mask (deltas.map Neg.neg)
  left_inv := shiftBatches_neg mask deltas
  right_inv batches := by
    simpa only [List.map_map, Function.comp_def, neg_neg, List.map_id'] using
      shiftBatches_neg mask (deltas.map Neg.neg) batches

/-- With the shifted batches, a party at a nonzero point of `points` holds the same column for
`vals'` as for `vals`. -/
private theorem column_shiftBatches {degree : ℕ} {points : List F} (few : points.length ≤ degree)
    (p : ℕ) (member : ((p + 1 : ℕ) : F) ∈ points) (nonzero : ((p + 1 : ℕ) : F) ≠ 0) :
    ∀ (vals vals' : List F), vals'.length = vals.length → ∀ batches : List (List F),
      (∀ coeffs ∈ batches, coeffs.length = degree) →
      column p vals' (shiftBatches (mask degree points) (List.zipWith (· - ·) vals' vals) batches) =
        column p vals batches
  | [], [], _, _, _ => rfl
  | _ :: _, _ :: _, _, [], _ => rfl
  | val :: vals, val' :: vals', same, coeffs :: batches, drawn => by
    simp only [column, List.zipWith_cons_cons, shiftBatches,
      evaluate_shift few val val' coeffs (drawn coeffs (List.mem_cons_self _ _)) member nonzero]
    exact congrArg _ (column_shiftBatches few p member nonzero vals vals' (Nat.succ.inj same)
      batches fun coeffs member => drawn coeffs (List.mem_cons_of_mem _ member))

/-- Any `degree` parties away from the point zero hold the same shares of two inputs of one length
once the draws of the second are a fixed batch-length-preserving bijection of the first's. -/
theorem shareFieldElements_hides (vals vals' : List F) (same : vals'.length = vals.length)
    (degree num_parties : ℕ) (parties : List ℕ) (few : parties.length ≤ degree)
    (nonzero : ∀ p ∈ parties, ((p + 1 : ℕ) : F) ≠ 0) :
    ∃ e : List (List F) ≃ List (List F),
      (∀ batches, (e batches).map List.length = batches.map List.length) ∧
      ∀ (rand : R → F × R) (rng rng' : R),
        (drawBatches rand degree vals.length rng').1 = e (drawBatches rand degree vals.length rng).1 →
        ∀ p ∈ parties, (shareFieldElements rand vals' degree num_parties rng').1[p]? =
          (shareFieldElements rand vals degree num_parties rng).1[p]? := by
  let points := parties.map fun p => ((p + 1 : ℕ) : F)
  refine ⟨shiftBatchesEquiv (mask degree points) (List.zipWith (· - ·) vals' vals),
    lengths_shiftBatches _ _, fun rand rng rng' drawn p member => ?_⟩
  simp only [shareFieldElements_eq, same, drawn, List.getElem?_map]
  rcases Nat.lt_or_ge p num_parties with within | beyond
  · rw [List.getElem?_range within, Option.map_some', Option.map_some']
    exact congrArg some (column_shiftBatches (by simpa [points] using few) p
      (List.mem_map_of_mem (fun p => ((p + 1 : ℕ) : F)) member) (nonzero p member) vals vals' same _
      (length_of_mem_drawBatches rand))
  · rw [List.getElem?_eq_none (by simpa using beyond)]
    rfl

end Privacy

/-- Party `1` alone, with polynomials of degree one, holds the same share of `5` and of `9` under
shifted draws. -/
theorem shareFieldElements_hides_of_one_party :
    [(9 : ℚ)].length = [(5 : ℚ)].length ∧ [1].length ≤ 1 ∧ (∀ p ∈ [1], ((p + 1 : ℕ) : ℚ) ≠ 0) ∧
    ∃ e : List (List ℚ) ≃ List (List ℚ),
      (∀ batches, (e batches).map List.length = batches.map List.length) ∧
      ∀ (rand : ℕ → ℚ × ℕ) (rng rng' : ℕ),
        (drawBatches rand 1 [(5 : ℚ)].length rng').1 =
            e (drawBatches rand 1 [(5 : ℚ)].length rng).1 →
          ∀ p ∈ [1], (shareFieldElements rand [(9 : ℚ)] 1 3 rng').1[p]? =
            (shareFieldElements rand [(5 : ℚ)] 1 3 rng).1[p]? :=
  ⟨rfl, by decide, by norm_num,
    shareFieldElements_hides [5] [9] rfl 1 3 [1] (by decide) (by norm_num)⟩

section Witnesses

variable (rand : R → F × R)

/-- `SharedWitness::share_shamir` panics on a prefix past the witness; otherwise `num_parties`
results carry the prefix, and any `degree + 1` of them recover the rest. -/
theorem sharedWitness_shareShamir_splits (witness : Witness F)
    (num_pub_inputs degree num_parties : ℕ) (rng : R) :
    (witness.values.length < num_pub_inputs →
      SharedWitness.shareShamir rand witness num_pub_inputs degree num_parties rng = .error (.panic
        s!"range end index {num_pub_inputs} out of range for slice of length {witness.values.length}")) ∧
    (num_pub_inputs ≤ witness.values.length → ∃ parts rng',
      SharedWitness.shareShamir rand witness num_pub_inputs degree num_parties rng =
        .ok (parts, rng') ∧
      parts.length = num_parties ∧
      (∀ part ∈ parts, part.public_inputs = witness.values.take num_pub_inputs ∧
        part.witness.length = witness.values.length - num_pub_inputs) ∧
      ∀ parties : List ℕ, (∀ p ∈ parties, p < num_parties) → degree + 1 ≤ parties.length →
        (parties.map fun p => ((p + 1 : ℕ) : F)).Nodup →
        ∀ (k : ℕ) (val : F), witness.values[num_pub_inputs + k]? = some val → ∃ held : List F,
          parties.map (fun p => (parts[p]?.bind (·.witness[k]?)).map ShamirPrimeFieldShare.a) =
            held.map some ∧
          reconstruct held (lagrangeFromCoeff (parties.map (· + 1))) = val) := by
  refine ⟨fun beyond => by simp [SharedWitness.shareShamir, splitPublic_of_lt beyond],
    fun within => ⟨(shareFieldElements rand (witness.values.drop num_pub_inputs) degree num_parties
      rng).1.map fun share => ⟨witness.values.take num_pub_inputs, share⟩, _,
      by rw [SharedWitness.shareShamir, splitPublic_of_le within]; rfl, ?_, ?_,
      fun parties inside enough distinct k val value => ?_⟩⟩
  all_goals simp only [shareFieldElements_eq]
  · simp
  · simp only [List.map_map, List.mem_map, List.mem_range]
    rintro _ ⟨p, -, rfl⟩
    exact ⟨rfl, by simp [column]⟩
  · have recovered := columns_recover (witness.values.drop num_pub_inputs)
      (drawBatches rand degree (witness.values.drop num_pub_inputs).length rng).1
      (length_of_mem_drawBatches rand) (by simp) parties inside enough distinct k val
      (by rwa [List.getElem?_drop])
    simpa [Option.bind_map, Function.comp_def] using recovered

end Witnesses

end CoSnarks.Soundness.Shamir
