import Mathlib.Data.BitVec

/-! # Wire labels and the primitives a garbler calls

A `WireMod2` is a 128-bit block; adding two labels is XOR, and multiplying by a constant keeps
the label for an odd constant and zeroes it for an even one, as `fancy_garbling` implements the
label arithmetic modulo two. The hash, the tweak, the randomness and the gate garbling come from
other crates and are parameters of the model: a garbler's behaviour is proved for every choice of
them.
-/

namespace CoSnarks.Model.Yao

/-- `scuttlebutt::Block`: 128 bits. -/
abbrev Block := BitVec 128

/-- `Block::as_ref`: the sixteen bytes of a block, least significant first. -/
def Block.bytes (block : Block) : List UInt8 :=
  (List.range 16).map fun i => (block.extractLsb' (8 * i) 8).toNat.toUInt8

@[simp] theorem Block.length_bytes (block : Block) : block.bytes.length = 16 := by
  simp [Block.bytes]

/-- `PartyID`: the evaluator `ID0` and the two garblers. -/
inductive PartyID where
  | id0
  | id1
  | id2
deriving DecidableEq, Repr

/-- `fancy_garbling::WireMod2`, a label of a wire modulo two. -/
structure WireMod2 where
  val : Block
deriving DecidableEq, Repr

namespace WireMod2

/-- `WireMod2::default`: the zero block. -/
def default : WireMod2 := ⟨0⟩

/-- `WireLabel::as_block`. -/
def asBlock (wire : WireMod2) : Block := wire.val

/-- `WireLabel::plus`: addition modulo two, blockwise XOR. -/
def plus (x y : WireMod2) : WireMod2 := ⟨x.val ^^^ y.val⟩

/-- `WireLabel::cmul_eq`, the value it writes into its receiver: `c & 1 == 0` zeroes the label,
an odd constant keeps it. -/
def cmulEq (wire : WireMod2) (c : Nat) : WireMod2 := if c % 2 = 0 then ⟨0⟩ else wire

/-- `WireLabel::cmul`: `cmul_eq` on a clone, the receiver left alone. -/
def cmul (wire : WireMod2) (c : Nat) : WireMod2 := wire.cmulEq c

@[simp] theorem cmulEq_of_odd (wire : WireMod2) {c : Nat} (odd : c % 2 = 1) :
    wire.cmulEq c = wire := by
  simp [cmulEq, odd]

@[simp] theorem cmulEq_two_mul (wire : WireMod2) (n : Nat) : wire.cmulEq (2 * n) = default := by
  simp [cmulEq, default]

@[simp] theorem plus_default (wire : WireMod2) : wire.plus default = wire := by
  simp [plus, default]

theorem plus_assoc (x y z : WireMod2) : (x.plus y).plus z = x.plus (y.plus z) := by
  simp [plus, BitVec.xor_assoc]

theorem plus_comm (x y : WireMod2) : x.plus y = y.plus x := by
  simp [plus, BitVec.xor_comm]

theorem plus_left_comm (x y z : WireMod2) : x.plus (y.plus z) = y.plus (x.plus z) := by
  rw [← plus_assoc, plus_comm x, plus_assoc]

/-- Adding a label twice cancels. -/
theorem plus_plus_self (x y : WireMod2) : x.plus (x.plus y) = y := by
  simp [plus, ← BitVec.xor_assoc]

@[simp] theorem cmul_zero (wire : WireMod2) : wire.cmul 0 = default := rfl

@[simp] theorem cmul_one (wire : WireMod2) : wire.cmul 1 = wire := rfl

/-- Adding a nonzero label changes every block. -/
theorem asBlock_plus_ne (wire : WireMod2) {delta : WireMod2} (nonzero : delta ≠ default) :
    (wire.plus delta).asBlock ≠ wire.asBlock := by
  intro same
  apply nonzero
  have cancelled := congrArg (wire.val ^^^ ·) same
  simp only [asBlock, plus, ← BitVec.xor_assoc, BitVec.xor_self, BitVec.zero_xor] at cancelled
  exact congrArg WireMod2.mk (cancelled.trans rfl)

end WireMod2

/-- The functions the garbler takes from `fancy_garbling`, `rand`, `sha3` and `GCUtils`, over the
randomness state `Rng`, the field elements `Fe` that `encode_field` reads, and the `GCInputs`
it returns. -/
structure Primitives (Rng Fe Inputs : Type) where
  /-- `WireMod2::rand(rng, q)`: a fresh label; the `WireMod2` implementation ignores `q`. -/
  rand : Rng → Nat → WireMod2 × Rng
  /-- `WireLabel::hash(tweak)`. -/
  hash : WireMod2 → Block → Block
  /-- `util::output_tweak(i, k)`. -/
  outputTweak : Nat → Nat → Block
  /-- `GCUtils::garble_and_gate(gate_num, a, b, delta)`: the two rows and the garbler's label
  of the result. -/
  garbleAndGate : Nat → WireMod2 → WireMod2 → WireMod2 → Block × Block × WireMod2
  /-- `GCUtils::encode_wire(rng, delta, val)`. -/
  encodeWire : Rng → WireMod2 → Nat → (WireMod2 × WireMod2) × Rng
  /-- `GCUtils::encode_field(field, rng, delta)`. -/
  encodeField : Fe → Rng → WireMod2 → Inputs × Rng
  /-- `GCUtils::random_delta(rng)`. -/
  randomDelta : Rng → WireMod2 × Rng
  /-- `Sha3_256::finalize`, as a function of every byte absorbed. -/
  sha3 : List UInt8 → List UInt8

end CoSnarks.Model.Yao
