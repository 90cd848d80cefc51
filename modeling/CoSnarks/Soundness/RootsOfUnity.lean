import Mathlib.NumberTheory.LegendreSymbol.Basic
import Mathlib.RingTheory.RootsOfUnity.PrimitiveRoots
import CoSnarks.Model.Circom.RootsOfUnity

/-! # The roots of unity are primitive

Over a field of odd prime order `p` with `p - 1 = 2 ^ s * t`, `t` odd, ark-ff's Legendre test is
Euler's criterion, so the search loop stops at the least non-square `q`. Then `z = q ^ t`
satisfies `z ^ 2 ^ s = q ^ (p - 1) = 1` and `z ^ 2 ^ (s - 1) = q ^ (p / 2) = -1`, and the `i`-th
root, `z ^ 2 ^ (s - i)`, has order exactly `2 ^ i`.
-/

namespace CoSnarks.Soundness.RootsOfUnity

open CoSnarks.Model.Circom.Utils

variable {p : ℕ} [Fact p.Prime]

/-- ark-ff's Legendre test is Euler's criterion: it answers "non-residue" exactly on the
non-squares. -/
theorem legendre_eq_nonResidue_iff (odd : p ≠ 2) (q : ZMod p) :
    legendre q = .quadraticNonResidue ↔ ¬IsSquare q := by
  have prime : p.Prime := Fact.out
  have half : (p - 1) / 2 = p / 2 := by
    have := Nat.odd_iff.mp (prime.odd_of_ne_two odd)
    omega
  by_cases zero : q = 0
  · have positive : p / 2 ≠ 0 := by
      have := prime.two_le
      omega
    simp [legendre, half, zero, positive]
  · have nonzero : q ^ (p / 2) ≠ 0 := pow_ne_zero _ zero
    simp [legendre, half, nonzero, ZMod.euler_criterion p zero]

/-- The search loop ends, at the least of `1, 2, 3, …` that is not a square. -/
theorem findNonResidue_least (odd : p ≠ 2) :
    ∃ n : ℕ, findNonResidue p 1 = some (n : ZMod p) ∧ 1 ≤ n ∧ n < p ∧
      ¬IsSquare (n : ZMod p) ∧ ∀ m, 1 ≤ m → m < n → IsSquare (m : ZMod p) := by
  classical
  haveI : NeZero p := ⟨(Fact.out : p.Prime).ne_zero⟩
  have exists_nonsquare : ∃ n, 1 ≤ n ∧ n < p ∧ ¬IsSquare (n : ZMod p) := by
    obtain ⟨a, nonsquare⟩ : ∃ a : ZMod p, ¬IsSquare a :=
      FiniteField.exists_nonsquare (by rwa [ZMod.ringChar_zmod_n])
    rw [← ZMod.natCast_zmod_val a] at nonsquare
    refine ⟨a.val, Nat.one_le_iff_ne_zero.mpr fun zero => ?_, ZMod.val_lt a, nonsquare⟩
    exact nonsquare (by simp [zero])
  obtain ⟨low, below, nonsquare⟩ := Nat.find_spec exists_nonsquare
  have least : ∀ m, 1 ≤ m → m < Nat.find exists_nonsquare → IsSquare (m : ZMod p) :=
    fun m low' below' => not_not.mp fun h => Nat.find_min exists_nonsquare below' ⟨low', by omega, h⟩
  refine ⟨_, ?_, low, below, nonsquare, least⟩
  rw [← Nat.cast_one]
  exact findNonResidue_eq_some low (by omega) ((legendre_eq_nonResidue_iff odd _).mpr nonsquare)
    fun m low' below' found => (legendre_eq_nonResidue_iff odd _).mp found (least m low' below')

/-- The `i`-th root, counted from the back of the squarings, is `z ^ 2 ^ (s - i)`. -/
private theorem getElem?_reverse_squarings (z : ZMod p) {s i : ℕ} (within : i ≤ s) :
    ((List.range (s + 1)).map fun j => z ^ 2 ^ j).reverse[i]? = some (z ^ 2 ^ (s - i)) := by
  rw [List.getElem?_reverse (by simp; omega)]
  simp [List.getElem?_range (show s - i < s + 1 by omega)]

section Trace

variable {s t : ℕ} (odd : p ≠ 2) (split : p - 1 = 2 ^ s * t) (trace_odd : t % 2 = 1)
include odd split trace_odd

/-- An odd `p - 1 = 2 ^ s * t` with `t` odd has at least one factor two. -/
private theorem one_le_two_adicity : 1 ≤ s := Nat.one_le_iff_ne_zero.mpr fun zero => by
  have := Nat.odd_iff.mp ((Fact.out : p.Prime).odd_of_ne_two odd)
  simp only [zero, pow_zero, one_mul] at split
  omega

/-- For a non-square `q`, the power `z = q ^ t` has `z ^ 2 ^ s = q ^ (p - 1) = 1` and
`z ^ 2 ^ (s - 1) = q ^ (p / 2) = -1`. -/
private theorem trace_pow_two_adicity {q : ZMod p} (nonsquare : ¬IsSquare q) :
    (q ^ t) ^ 2 ^ s = 1 ∧ (q ^ t) ^ 2 ^ (s - 1) = -1 := by
  have nonzero : q ≠ 0 := fun zero => nonsquare (zero ▸ isSquare_zero)
  have exponent : t * 2 ^ (s - 1) = p / 2 := by
    have doubled : 2 ^ s = 2 * 2 ^ (s - 1) := by
      rw [← pow_succ', Nat.sub_add_cancel (one_le_two_adicity odd split trace_odd)]
    rw [doubled, mul_assoc, mul_comm (2 ^ (s - 1))] at split
    omega
  constructor
  · rw [← pow_mul, mul_comm, ← split]
    exact ZMod.pow_card_sub_one_eq_one nonzero
  · rw [← pow_mul, exponent]
    exact (ZMod.pow_div_two_eq_neg_one_or_one p nonzero).resolve_left
      fun one => nonsquare ((ZMod.euler_criterion p nonzero).mpr one)

end Trace

/-- `roots_of_unity` terminates, on the least non-square `q`, with `s + 1` roots, each the square
of the next, the `i`-th of order exactly `2 ^ i`. -/
theorem rootsOfUnity_primitive {p s t : ℕ} (prime : p.Prime) (odd : p ≠ 2)
    (split : p - 1 = 2 ^ s * t) (trace_odd : t % 2 = 1) :
    ∃ q roots, rootsOfUnity p s t = some (q, roots) ∧
      (∃ n : ℕ, q = n ∧ 1 ≤ n ∧ n < p ∧ ¬IsSquare q ∧
        ∀ m, 1 ≤ m → m < n → IsSquare (m : ZMod p)) ∧
      roots.length = s + 1 ∧
      (∀ i < s, roots[i + 1]?.map (· ^ 2) = roots[i]?) ∧
      (∀ i ≤ s, roots[i]?.map (· ^ 2 ^ i) = some 1) ∧
      (∀ i, 1 ≤ i → i ≤ s → roots[i]?.map (· ^ 2 ^ (i - 1)) = some (-1)) := by
  haveI := Fact.mk prime
  obtain ⟨n, found, low, below, nonsquare, least⟩ := findNonResidue_least odd
  obtain ⟨full, half⟩ := trace_pow_two_adicity odd split trace_odd nonsquare
  refine ⟨n, _, by rw [rootsOfUnity_eq, found]; rfl, ⟨n, rfl, low, below, nonsquare, least⟩,
    by simp, fun i within => ?_, fun i within => ?_, fun i positive within => ?_⟩
  · rw [getElem?_reverse_squarings _ within, getElem?_reverse_squarings _ within.le, Option.map_some',
      ← pow_mul, ← pow_succ, show s - (i + 1) + 1 = s - i by omega]
  · rw [getElem?_reverse_squarings _ within, Option.map_some', ← pow_mul, ← pow_add,
      Nat.sub_add_cancel within, full]
  · rw [getElem?_reverse_squarings _ within, Option.map_some', ← pow_mul, ← pow_add,
      show s - i + (i - 1) = s - 1 by omega, half]

/-- Over `ZMod 7`, where `7 - 1 = 2 * 3`, the non-square `3` gives the roots `1` and `3 ^ 3 = 6`. -/
theorem rootsOfUnity_primitive_seven :
    Nat.Prime 7 ∧ 7 ≠ 2 ∧ 7 - 1 = 2 ^ 1 * 3 ∧ 3 % 2 = 1 ∧
    ∃ q roots, rootsOfUnity 7 1 3 = some (q, roots) ∧
      (∃ n : ℕ, q = n ∧ 1 ≤ n ∧ n < 7 ∧ ¬IsSquare q ∧
        ∀ m, 1 ≤ m → m < n → IsSquare (m : ZMod 7)) ∧
      roots.length = 1 + 1 ∧
      (∀ i : ℕ, i < 1 → roots[i + 1]?.map (· ^ 2) = roots[i]?) ∧
      (∀ i : ℕ, i ≤ 1 → roots[i]?.map (· ^ 2 ^ i) = some 1) ∧
      (∀ i : ℕ, 1 ≤ i → i ≤ 1 → roots[i]?.map (· ^ 2 ^ (i - 1)) = some (-1)) :=
  ⟨by decide, by decide, rfl, rfl, rootsOfUnity_primitive (by decide) (by decide) rfl rfl⟩

/-- The `i`-th root is a primitive `2 ^ i`-th root of unity: its order is exactly `2 ^ i`. -/
theorem rootsOfUnity_isPrimitiveRoot {p s t : ℕ} (prime : p.Prime) (odd : p ≠ 2)
    (split : p - 1 = 2 ^ s * t) (trace_odd : t % 2 = 1) :
    ∃ q roots, rootsOfUnity p s t = some (q, roots) ∧
      ∀ i ≤ s, ∃ root, roots[i]? = some root ∧ IsPrimitiveRoot root (2 ^ i) := by
  haveI := Fact.mk prime
  haveI : Fact (2 < p) := ⟨lt_of_le_of_ne prime.two_le (Ne.symm odd)⟩
  obtain ⟨n, found, -, -, nonsquare, -⟩ := findNonResidue_least odd
  obtain ⟨full, half⟩ := trace_pow_two_adicity odd split trace_odd nonsquare
  refine ⟨n, _, by rw [rootsOfUnity_eq, found]; rfl,
    fun i within => ⟨_, getElem?_reverse_squarings _ within, ?_⟩⟩
  suffices order : orderOf (((n : ZMod p) ^ t) ^ 2 ^ (s - i)) = 2 ^ i from
    order ▸ IsPrimitiveRoot.orderOf _
  cases i with
  | zero => rw [Nat.sub_zero, full, orderOf_one, pow_zero]
  | succ i =>
    apply orderOf_eq_prime_pow
    · rw [← pow_mul, ← pow_add, show s - (i + 1) + i = s - 1 by omega, half]
      exact ZMod.neg_one_ne_one
    · rw [← pow_mul, ← pow_add, Nat.sub_add_cancel within, full]

/-- Over `ZMod 7` the roots `1` and `6` are primitive roots of unity of orders `1` and `2`. -/
theorem rootsOfUnity_isPrimitiveRoot_seven :
    Nat.Prime 7 ∧ 7 ≠ 2 ∧ 7 - 1 = 2 ^ 1 * 3 ∧ 3 % 2 = 1 ∧
    ∃ q roots, rootsOfUnity 7 1 3 = some (q, roots) ∧
      ∀ i : ℕ, i ≤ 1 → ∃ root, roots[i]? = some root ∧ IsPrimitiveRoot root (2 ^ i) :=
  ⟨by decide, by decide, rfl, rfl, rootsOfUnity_isPrimitiveRoot (by decide) (by decide) rfl rfl⟩

end CoSnarks.Soundness.RootsOfUnity
