import CoSnarks.Model.Core.BTreeMap

/-! # Named inputs of a collaborative witness extension

Each input provider hands every party a `SerializeableSharedRep3Input`: four name-keyed maps of
public values, shares, and their partially known ("maybe") staging counterparts. Field elements
enter only through equality, so they are a type with decidable equality. The share types live
outside this crate; they are rebuilt here from the specification's description of them.
-/

namespace CoSnarks.Model.Circom

open CoSnarks.Model.Core

/-- How a call of the input-merging code can end other than with a value. -/
inductive Failure where
  /-- An `eyre::Report`, from `eyre::bail!` or from `eyre::eyre!` through `?`. -/
  | report (message : String)
  /-- A panic, such as `todo!()`. -/
  | panic (message : String)
deriving DecidableEq, Repr

/-- Modelled from the spec: `Rep3PrimeFieldShare<F>`, the two of three replicated sub-shares a
party holds. -/
structure Rep3PrimeFieldShare (F : Type) where
  a : F
  b : F
deriving DecidableEq, Repr

/-- Modelled from the spec: `Rep3ShareVecType<F, U>`, a column of shares under one scheme. The
seeded forms keep only regeneration material, opaque here as `U`. -/
inductive Rep3ShareVecType (F U : Type) where
  | replicated (shares : List (Rep3PrimeFieldShare F))
  | seededReplicated (seeded : U)
  | additive (shares : List F)
  | seededAdditive (seeded : U)
deriving DecidableEq, Repr

/-- Modelled from the spec: `MaybeRep3ShareVecType<F>`, a column in which a provider may leave
positions it does not know. -/
inductive MaybeRep3ShareVecType (F : Type) where
  | replicated (shares : List (Option (Rep3PrimeFieldShare F)))
  | additive (shares : List (Option F))
deriving DecidableEq, Repr

/-- One provider's named inputs for one party. -/
structure SerializeableSharedRep3Input (F U : Type) where
  public_inputs : BTreeMap String (List F)
  maybe_public_inputs : BTreeMap String (List (Option F))
  shared_inputs : BTreeMap String (Rep3ShareVecType F U)
  maybe_shared_inputs : BTreeMap String (MaybeRep3ShareVecType F)
deriving DecidableEq

/-- A party's merged input: public values and replicated (or other) shares by name. -/
structure SharedInput (F S : Type) where
  public_inputs : BTreeMap String (List F)
  shared_inputs : BTreeMap String (List S)
deriving DecidableEq

/-- Results compare by constructor and contents, so that runs on fixed inputs can be decided. -/
instance decidableEqExcept {ε α : Type} [DecidableEq ε] [DecidableEq α] :
    DecidableEq (Except ε α)
  | .ok a, .ok b => decidable_of_iff (a = b) (by simp)
  | .error e, .error f => decidable_of_iff (e = f) (by simp)
  | .ok _, .error _ => isFalse nofun
  | .error _, .ok _ => isFalse nofun

namespace Except

variable {ε α β : Type}

theorem bind_eq_ok {x : Except ε α} {f : α → Except ε β} {b : β} :
    x >>= f = .ok b ↔ ∃ a, x = .ok a ∧ f a = .ok b := by
  cases x <;> simp [bind, Except.bind]

theorem map_eq_ok {x : Except ε α} {f : α → β} {b : β} :
    f <$> x = .ok b ↔ ∃ a, x = .ok a ∧ f a = b := by
  cases x <;> simp [Functor.map, Except.map]

@[simp] theorem ok_bind {a : α} {f : α → Except ε β} : (Except.ok a >>= f : Except ε β) = f a :=
  rfl

theorem pure_eq_ok {a b : α} : (pure a : Except ε α) = .ok b ↔ a = b :=
  ⟨Except.ok.inj, congrArg _⟩

@[simp] theorem throw_ne_ok {e : ε} {a : α} : (throw e : Except ε α) ≠ .ok a := nofun

@[simp] theorem throw_bind {e : ε} {f : α → Except ε β} : (throw e >>= f : Except ε β) = throw e :=
  rfl

end Except

theorem allSome_cons {α : Type} (head : Option α) (rest : List (Option α)) :
    (head :: rest).allSome = head.bind fun value => rest.allSome.map (value :: ·) := by
  rw [List.allSome, List.allSome, List.mapM_cons]
  cases head <;> cases List.mapM id rest <;> rfl

/-- `collect::<Option<Vec<_>>>()` succeeds exactly on columns with every position present. -/
theorem allSome_eq_some {α : Type} {column : List (Option α)} {values : List α} :
    column.allSome = some values ↔ column = values.map some := by
  induction column generalizing values with
  | nil => cases values <;> simp [show ([] : List (Option α)).allSome = some [] from rfl]
  | cons head rest ih =>
    cases head <;> cases values <;> simp [allSome_cons, ih, and_assoc, and_comm]

theorem allSome_eq_none {α : Type} {column : List (Option α)} :
    column.allSome = none ↔ none ∈ column := by
  induction column with
  | nil => simp [show ([] : List (Option α)).allSome = some [] from rfl]
  | cons head rest ih =>
    cases head <;> simp [allSome_cons, ih]

variable {F U S : Type}

namespace SerializeableSharedRep3Input

/-- `Default::default`: four empty maps. -/
def default : SerializeableSharedRep3Input F U := ⟨.new, .new, .new, .new⟩

/-- The specification's invariant: a name occupies at most one of the four collections. -/
@[mk_iff]
structure KeyDisjoint (input : SerializeableSharedRep3Input F U) : Prop where
  public_maybe_public : ∀ key ∈ input.public_inputs.keys, key ∉ input.maybe_public_inputs.keys
  public_shared : ∀ key ∈ input.public_inputs.keys, key ∉ input.shared_inputs.keys
  public_maybe_shared : ∀ key ∈ input.public_inputs.keys, key ∉ input.maybe_shared_inputs.keys
  maybe_public_shared : ∀ key ∈ input.maybe_public_inputs.keys, key ∉ input.shared_inputs.keys
  maybe_public_maybe_shared :
    ∀ key ∈ input.maybe_public_inputs.keys, key ∉ input.maybe_shared_inputs.keys
  shared_maybe_shared : ∀ key ∈ input.shared_inputs.keys, key ∉ input.maybe_shared_inputs.keys

instance (input : SerializeableSharedRep3Input F U) : Decidable input.KeyDisjoint :=
  decidable_of_iff _ (keyDisjoint_iff input).symm

theorem keyDisjoint_default : (default : SerializeableSharedRep3Input F U).KeyDisjoint :=
  ⟨by simp [default], by simp [default], by simp [default], by simp [default],
    by simp [default], by simp [default]⟩

end SerializeableSharedRep3Input

namespace SharedInput

/-- `Default::default`: two empty maps. -/
def default : SharedInput F S := ⟨.new, .new⟩

end SharedInput

end CoSnarks.Model.Circom
