import Mathlib.Algebra.Group.Basic
import Mathlib.Data.Fin.VecNotation
import CoSnarks.Model.Circom.Input

/-! # Sharing inputs and witnesses among three parties

`share_rep3` and `maybe_share_rep3` split a column into three parties' shares under a scheme
picked by two flags; the witness sharers copy a public prefix to every party and share the rest.
The `rep3` primitives of `mpc-core` are rebuilt from the specification, with `rand` for
`F::rand(rng)`; the seeded schemes are parameters (`Seeded`). A `[T; 3]` is `Fin 3 → T`.
-/

namespace CoSnarks.Model.Circom

namespace Rep3

variable {F R : Type} [AddCommGroup F] (rand : R → F × R)

/-- Modelled from the spec: `rep3::share_field_element` once its two draws `a` and `b` are made.
The third sub-share is `c = val - a - b`, and each party holds its own sub-share and the one of
the party before it. -/
def shareDrawn (val a b : F) : Fin 3 → Rep3PrimeFieldShare F :=
  ![⟨a, val - a - b⟩, ⟨b, a⟩, ⟨val - a - b, b⟩]

/-- Modelled from the spec: `rep3::share_field_element_additive` once its draws are made: three
sub-shares adding up to `val`, one for each party. -/
def shareDrawnAdditive (val a b : F) : Fin 3 → F :=
  ![a, b, val - a - b]

/-- The element sharings of `rep3`: draw `a`, then `b`, and split `val` with them as `drawn`
does. -/
def drawAndShare {S : Type} (drawn : F → F → F → Fin 3 → S) (val : F) (rng : R) :
    (Fin 3 → S) × R :=
  let (a, rng) := rand rng
  let (b, rng) := rand rng
  (drawn val a b, rng)

/-- Modelled from the spec: `rep3::share_field_element`. -/
def shareFieldElement : F → R → (Fin 3 → Rep3PrimeFieldShare F) × R :=
  drawAndShare rand shareDrawn

/-- Modelled from the spec: `rep3::share_field_element_additive`. -/
def shareFieldElementAdditive : F → R → (Fin 3 → F) × R :=
  drawAndShare rand shareDrawnAdditive

/-- The loop of the column sharings: share one element after the other, each party collecting
its parts in order. -/
def shareEach {S : Type} (share : F → R → (Fin 3 → S) × R) : List F → R → (Fin 3 → List S) × R
  | [], rng => (fun _ => [], rng)
  | val :: vals, rng =>
    let (shares, rng) := share val rng
    let (rest, rng) := shareEach share vals rng
    (fun i => shares i :: rest i, rng)

/-- The loop of the partial column sharings: a known element is shared, an unknown one stays
unknown for every party and draws nothing. -/
def shareMaybeEach {S : Type} (share : F → R → (Fin 3 → S) × R) :
    List (Option F) → R → (Fin 3 → List (Option S)) × R
  | [], rng => (fun _ => [], rng)
  | none :: vals, rng =>
    let (rest, rng) := shareMaybeEach share vals rng
    (fun i => none :: rest i, rng)
  | some val :: vals, rng =>
    let (shares, rng) := share val rng
    let (rest, rng) := shareMaybeEach share vals rng
    (fun i => some (shares i) :: rest i, rng)

/-- Modelled from the spec: `rep3::share_field_elements`. -/
def shareFieldElements : List F → R → (Fin 3 → List (Rep3PrimeFieldShare F)) × R :=
  shareEach (shareFieldElement rand)

/-- Modelled from the spec: `rep3::share_field_elements_additive`. -/
def shareFieldElementsAdditive : List F → R → (Fin 3 → List F) × R :=
  shareEach (shareFieldElementAdditive rand)

/-- Modelled from the spec: `rep3::share_maybe_field_elements`. -/
def shareMaybeFieldElements :
    List (Option F) → R → (Fin 3 → List (Option (Rep3PrimeFieldShare F))) × R :=
  shareMaybeEach (shareFieldElement rand)

/-- Modelled from the spec: `rep3::share_maybe_field_elements_additive`. -/
def shareMaybeFieldElementsAdditive : List (Option F) → R → (Fin 3 → List (Option F)) × R :=
  shareMaybeEach (shareFieldElementAdditive rand)

/-- Modelled from the spec: `rep3::combine_field_element`, the sum of the parties' own
sub-shares. -/
def combineFieldElement (shares : Fin 3 → Rep3PrimeFieldShare F) : F :=
  (shares 0).a + (shares 1).a + (shares 2).a

/-- Modelled from the spec: `rep3::combine_field_elements`, position by position. -/
def combineFieldElements (shares : Fin 3 → List (Rep3PrimeFieldShare F)) : List F :=
  List.zipWith3 (fun x1 x2 x3 => x1.a + x2.a + x3.a) (shares 0) (shares 1) (shares 2)

/-- Modelled from the spec: the sum of three additive columns, position by position. -/
def combineFieldElementsAdditive (shares : Fin 3 → List F) : List F :=
  List.zipWith3 (fun x1 x2 x3 => x1 + x2 + x3) (shares 0) (shares 1) (shares 2)

/-- The pairs `(a, b)` that `n` sharings draw from the generator, in order. -/
def drawPairs : Nat → R → List (F × F) × R
  | 0, rng => ([], rng)
  | n + 1, rng =>
    let (a, rng) := rand rng
    let (b, rng) := rand rng
    let (rest, rng) := drawPairs n rng
    ((a, b) :: rest, rng)

omit [AddCommGroup F] in
@[simp] theorem length_drawPairs (n : Nat) (rng : R) : (drawPairs rand n rng).1.length = n := by
  induction n generalizing rng with
  | zero => rfl
  | succ n ih => simp [drawPairs, ih]

omit [AddCommGroup F] in
/-- Sharing a column draws one pair per element, whatever the elements are, and hands party `i`
its part of each element's split with that element's pair. -/
theorem shareEach_drawAndShare {S : Type} (drawn : F → F → F → Fin 3 → S) (vals : List F)
    (rng : R) :
    shareEach (drawAndShare rand drawn) vals rng =
      (fun i => List.zipWith (fun val draw => drawn val draw.1 draw.2 i) vals
        (drawPairs rand vals.length rng).1, (drawPairs rand vals.length rng).2) := by
  induction vals generalizing rng with
  | nil => rfl
  | cons val vals ih =>
    simp only [shareEach, drawAndShare, ih, drawPairs, List.length_cons]
    rfl

@[simp] theorem combineFieldElement_shareDrawn (val a b : F) :
    combineFieldElement (shareDrawn val a b) = val := by
  simp [combineFieldElement, shareDrawn]

@[simp] theorem sum_shareDrawnAdditive (val a b : F) :
    shareDrawnAdditive val a b 0 + shareDrawnAdditive val a b 1 + shareDrawnAdditive val a b 2 =
      val := by
  simp [shareDrawnAdditive]

/-- Combining the parties' replicated shares of a column gives the column back. -/
@[simp] theorem combineFieldElements_shareFieldElements (vals : List F) (rng : R) :
    combineFieldElements (shareFieldElements rand vals rng).1 = vals := by
  induction vals generalizing rng with
  | nil => rfl
  | cons val vals ih => exact congrArg₂ List.cons (combineFieldElement_shareDrawn val _ _) (ih _)

/-- Adding up the parties' additive shares of a column gives the column back. -/
@[simp] theorem combineFieldElementsAdditive_shareFieldElementsAdditive (vals : List F) (rng : R) :
    combineFieldElementsAdditive (shareFieldElementsAdditive rand vals rng).1 = vals := by
  induction vals generalizing rng with
  | nil => rfl
  | cons val vals ih => exact congrArg₂ List.cons (sum_shareDrawnAdditive val _ _) (ih _)

end Rep3

/-- The seeded sharings of `mpc-core`, which keep a seed in place of the redundant sub-shares:
only what they return is modelled. -/
structure Seeded (F U R : Type) where
  share_field_elements_additive_seeded : List F → R → (Fin 3 → U) × R
  share_field_elements_seeded : List F → R → (Fin 3 → U) × R

/-- `circom_types::Witness<F>`: the full assignment, the constant one and the public outputs
first. -/
structure Witness (F : Type) where
  values : List F

/-- The serialized form of a party's share of a witness. -/
structure SerializeableSharedRep3Witness (F U : Type) where
  public_inputs : List F
  witness : Rep3ShareVecType F U

/-- A shared witness: the public prefix in the clear and the party's shares of the rest. -/
structure SharedWitness (F S : Type) where
  public_inputs : List F
  witness : List S

variable {F U R : Type}

/-- The slices `values[..num_pub_inputs]` and `values[num_pub_inputs..]`; indexing past the end
panics. -/
def splitPublic (values : List F) (num_pub_inputs : Nat) : Except Failure (List F × List F) :=
  if values.length < num_pub_inputs then
    throw (.panic s!"range end index {num_pub_inputs} out of range for slice of length {values.length}")
  else pure (values.take num_pub_inputs, values.drop num_pub_inputs)

theorem splitPublic_of_le {values : List F} {num_pub_inputs : Nat}
    (within : num_pub_inputs ≤ values.length) :
    splitPublic values num_pub_inputs =
      .ok (values.take num_pub_inputs, values.drop num_pub_inputs) := by
  simp [splitPublic, Nat.not_lt.mpr within, pure, Except.pure]

theorem splitPublic_of_lt {values : List F} {num_pub_inputs : Nat}
    (beyond : values.length < num_pub_inputs) :
    splitPublic values num_pub_inputs = .error (.panic
      s!"range end index {num_pub_inputs} out of range for slice of length {values.length}") := by
  simp [splitPublic, beyond, throw, throwThe, MonadExceptOf.throw]

section Sharing

variable [AddCommGroup F] (rand : R → F × R) (seeding : Seeded F U R)

namespace SerializeableSharedRep3Input

/-- `SerializeableSharedRep3Input::share_rep3`: the scheme picked by `seeded` and `additive`. -/
def shareRep3 (input : List F) (rng : R) (seeded additive : Bool) :
    (Fin 3 → Rep3ShareVecType F U) × R :=
  match seeded, additive with
  | true, true =>
    let (shares, rng) := seeding.share_field_elements_additive_seeded input rng
    (fun i => .seededAdditive (shares i), rng)
  | true, false =>
    let (shares, rng) := seeding.share_field_elements_seeded input rng
    (fun i => .seededReplicated (shares i), rng)
  | false, true =>
    let (shares, rng) := Rep3.shareFieldElementsAdditive rand input rng
    (fun i => .additive (shares i), rng)
  | false, false =>
    let (shares, rng) := Rep3.shareFieldElements rand input rng
    (fun i => .replicated (shares i), rng)

/-- `SerializeableSharedRep3Input::maybe_share_rep3`. -/
def maybeShareRep3 (input : List (Option F)) (rng : R) (additive : Bool) :
    (Fin 3 → MaybeRep3ShareVecType F) × R :=
  if additive then
    let (shares, rng) := Rep3.shareMaybeFieldElementsAdditive rand input rng
    (fun i => .additive (shares i), rng)
  else
    let (shares, rng) := Rep3.shareMaybeFieldElements rand input rng
    (fun i => .replicated (shares i), rng)

@[simp] theorem shareRep3_replicated (input : List F) (rng : R) :
    shareRep3 rand seeding input rng false false =
      (fun i => .replicated ((Rep3.shareFieldElements rand input rng).1 i),
        (Rep3.shareFieldElements rand input rng).2) := rfl

@[simp] theorem shareRep3_additive (input : List F) (rng : R) :
    shareRep3 rand seeding input rng false true =
      (fun i => .additive ((Rep3.shareFieldElementsAdditive rand input rng).1 i),
        (Rep3.shareFieldElementsAdditive rand input rng).2) := rfl

@[simp] theorem maybeShareRep3_replicated (input : List (Option F)) (rng : R) :
    maybeShareRep3 rand input rng false =
      (fun i => .replicated ((Rep3.shareMaybeFieldElements rand input rng).1 i),
        (Rep3.shareMaybeFieldElements rand input rng).2) := rfl

@[simp] theorem maybeShareRep3_additive (input : List (Option F)) (rng : R) :
    maybeShareRep3 rand input rng true =
      (fun i => .additive ((Rep3.shareMaybeFieldElementsAdditive rand input rng).1 i),
        (Rep3.shareMaybeFieldElementsAdditive rand input rng).2) := rfl

end SerializeableSharedRep3Input

namespace SerializeableSharedRep3Witness

/-- `SerializeableSharedRep3Witness::from_shared_witness`. -/
def fromSharedWitness (inp : SharedWitness F (Rep3PrimeFieldShare F)) :
    SerializeableSharedRep3Witness F U :=
  ⟨inp.public_inputs, .replicated inp.witness⟩

/-- `SerializeableSharedRep3Witness::share_rep3`: the public prefix goes to every party, the rest
is shared under the scheme the flags pick. -/
def shareRep3 (witness : Witness F) (num_pub_inputs : Nat) (rng : R) (seeded additive : Bool) :
    Except Failure ((Fin 3 → SerializeableSharedRep3Witness F U) × R) := do
  let (public_inputs, witness) ← splitPublic witness.values num_pub_inputs
  let (shares, rng) := SerializeableSharedRep3Input.shareRep3 rand seeding witness rng seeded additive
  pure (fun i => ⟨public_inputs, shares i⟩, rng)

variable {witness : Witness F} {num_pub_inputs : Nat}

/-- Every party gets the public prefix and its share of the rest. -/
@[simp] theorem shareRep3_of_le (within : num_pub_inputs ≤ witness.values.length) (rng : R)
    (seeded additive : Bool) :
    shareRep3 rand seeding witness num_pub_inputs rng seeded additive = .ok
      (fun i => ⟨witness.values.take num_pub_inputs, (SerializeableSharedRep3Input.shareRep3 rand
          seeding (witness.values.drop num_pub_inputs) rng seeded additive).1 i⟩,
        (SerializeableSharedRep3Input.shareRep3 rand seeding (witness.values.drop num_pub_inputs)
          rng seeded additive).2) := by
  rw [shareRep3, splitPublic_of_le within]
  rfl

@[simp] theorem shareRep3_of_lt (beyond : witness.values.length < num_pub_inputs) (rng : R)
    (seeded additive : Bool) :
    shareRep3 rand seeding witness num_pub_inputs rng seeded additive = .error (.panic
      s!"range end index {num_pub_inputs} out of range for slice of length {witness.values.length}") := by
  simp [shareRep3, splitPublic_of_lt beyond]

end SerializeableSharedRep3Witness

namespace SharedWitness

/-- `SharedWitness::share_rep3`: the public prefix goes to every party, the rest is shared with
replicated shares. -/
def shareRep3 (witness : Witness F) (num_pub_inputs : Nat) (rng : R) :
    Except Failure ((Fin 3 → SharedWitness F (Rep3PrimeFieldShare F)) × R) := do
  let (public_inputs, witness) ← splitPublic witness.values num_pub_inputs
  let (shares, rng) := Rep3.shareFieldElements rand witness rng
  pure (fun i => ⟨public_inputs, shares i⟩, rng)

variable {witness : Witness F} {num_pub_inputs : Nat}

/-- Every party gets the public prefix and its replicated share of the rest. -/
@[simp] theorem shareRep3_of_le (within : num_pub_inputs ≤ witness.values.length) (rng : R) :
    shareRep3 rand witness num_pub_inputs rng = .ok
      (fun i => ⟨witness.values.take num_pub_inputs,
          (Rep3.shareFieldElements rand (witness.values.drop num_pub_inputs) rng).1 i⟩,
        (Rep3.shareFieldElements rand (witness.values.drop num_pub_inputs) rng).2) := by
  rw [shareRep3, splitPublic_of_le within]
  rfl

@[simp] theorem shareRep3_of_lt (beyond : witness.values.length < num_pub_inputs) (rng : R) :
    shareRep3 rand witness num_pub_inputs rng = .error (.panic
      s!"range end index {num_pub_inputs} out of range for slice of length {witness.values.length}") := by
  simp [shareRep3, splitPublic_of_lt beyond]

end SharedWitness

end Sharing

end CoSnarks.Model.Circom
