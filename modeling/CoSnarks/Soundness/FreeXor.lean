import CoSnarks.Soundness.Decoding
import CoSnarks.Soundness.Garbler

/-! # Free XOR: a garbled circuit of XOR and NEGATE gates decodes to its plaintext

A wire's labels are its zero label for `false` and the zero label plus delta for `true`. XOR and
NEGATE gates keep this correspondence between the garbler's zero labels and the evaluator's
labels, so a circuit of them keeps it gate after gate, and revealing its output wires reads back
the plaintext outputs. Circuits are straight-line programs over wire indices; `constant` and AND
gates are left out.
-/

namespace CoSnarks.Soundness.FreeXor

open CoSnarks.Model.Yao Rep3Garbler Decoding

variable {Rng : Type}

/-! ## Labels -/

/-- The label of `bit` on the wire with the zero label `zero`: the zero label, plus delta for
`true`. -/
def label (delta zero : WireMod2) (bit : Bool) : WireMod2 :=
  zero.plus (delta.cmul bit.toNat)

/-- The labels of the bits `bits` on the wires with the zero labels `zeros`. -/
def encode (delta : WireMod2) (zeros : List WireMod2) (bits : List Bool) : List WireMod2 :=
  List.zipWith (label delta) zeros bits

section Labels

variable {delta : WireMod2}

@[simp] theorem label_false (zero : WireMod2) : label delta zero false = zero :=
  WireMod2.plus_default zero

@[simp] theorem label_true (zero : WireMod2) : label delta zero true = zero.plus delta := rfl

@[simp] theorem length_encode (zeros : List WireMod2) (bits : List Bool) :
    (encode delta zeros bits).length = min zeros.length bits.length :=
  List.length_zipWith _ _ _

/-- Free XOR: the labels of two bits add up to the label of their XOR, on the wire whose zero
label is the sum of the two zero labels. -/
private theorem label_plus (x y : WireMod2) (a b : Bool) :
    (label delta x a).plus (label delta y b) = label delta (x.plus y) (a ^^ b) := by
  cases a <;> cases b <;>
    simp [WireMod2.plus_assoc, WireMod2.plus_comm, WireMod2.plus_left_comm, WireMod2.plus_plus_self]

/-- Negation: on the wire whose zero label is moved by delta, the label of each bit is the label
of the other bit on the original wire. -/
private theorem label_negate (x : WireMod2) (a : Bool) :
    label delta (delta.plus x) (!a) = label delta x a := by
  cases a <;> simp [WireMod2.plus_comm, WireMod2.plus_plus_self]

/-- Reading a wire's label: the label of its bit on its zero label. A wire not yet there reads
the zero block, which is the label of `false` on the zero block. -/
private theorem getD_encode {zeros : List WireMod2} {bits : List Bool} (same : zeros.length = bits.length)
    (i : Nat) :
    (encode delta zeros bits).getD i .default =
      label delta (zeros.getD i .default) (bits.getD i false) := by
  simp only [encode, List.getD_eq_getElem?_getD, List.getElem?_zipWith]
  rcases Nat.lt_or_ge i bits.length with within | beyond
  · rw [List.getElem?_eq_getElem (same ▸ within), List.getElem?_eq_getElem within]
    rfl
  · simp [List.getElem?_eq_none (same ▸ beyond), List.getElem?_eq_none beyond]

end Labels

/-! ## Circuits of free gates -/

/-- A gate the garbler computes without sending anything, over earlier wires by index. -/
inductive FreeGate where
  | xor (i j : Nat)
  | negate (i : Nat)
deriving DecidableEq, Repr

namespace FreeGate

/-- The gate's bit, from the bits of the wires so far; a wire not yet there reads `false`. -/
def eval (bits : List Bool) : FreeGate → Bool
  | xor i j => bits.getD i false ^^ bits.getD j false
  | negate i => !bits.getD i false

/-- The garbler's side of the gate: its method `xor` or `negate` on the zero labels of the
gate's wires. -/
def garble (zeros : List WireMod2) : FreeGate → GarblerM Rng WireMod2
  | xor i j => Rep3Garbler.xor (zeros.getD i .default) (zeros.getD j .default)
  | negate i => Rep3Garbler.negate (zeros.getD i .default)

/-- Modelled from the spec: the evaluator's side of the gate, on the labels it holds. XOR adds
the two labels; NEGATE keeps the label, since the garbler moved the wire's zero label by delta
instead. -/
def evalLabel (labels : List WireMod2) : FreeGate → WireMod2
  | xor i j => (labels.getD i .default).plus (labels.getD j .default)
  | negate i => labels.getD i .default

end FreeGate

/-- The bits of a circuit's wires: each gate's bit appended in turn. -/
def evalWires (bits : List Bool) (gates : List FreeGate) : List Bool :=
  gates.foldl (fun acc gate => acc ++ [gate.eval acc]) bits

/-- The evaluator's labels of a circuit's wires: each gate's label appended in turn. -/
def evalLabels (labels : List WireMod2) (gates : List FreeGate) : List WireMod2 :=
  gates.foldl (fun acc gate => acc ++ [gate.evalLabel acc]) labels

/-- The garbler's side of a circuit: the gates garbled in turn, each answer appended to the zero
labels. -/
def garbleWires (zeros : List WireMod2) : List FreeGate → GarblerM Rng (List WireMod2)
  | [] => pure zeros
  | gate :: gates => do garbleWires (zeros ++ [← gate.garble zeros]) gates

/-- One gate: the garbler's call answers without touching its state, and the evaluator's label
for the gate is the label of the gate's bit on the zero label the garbler answers. -/
private theorem garble_gate (gate : FreeGate) {zeros : List WireMod2} {bits : List Bool}
    (same : zeros.length = bits.length) (self : Rep3Garbler Rng) :
    ∃ zero, (gate.garble zeros).run self = .ok zero self ∧
      gate.evalLabel (encode self.delta zeros bits) = label self.delta zero (gate.eval bits) := by
  cases gate with
  | xor i j =>
    refine ⟨(zeros.getD i .default).plus (zeros.getD j .default), rfl, ?_⟩
    rw [FreeGate.evalLabel, getD_encode same, getD_encode same, label_plus, FreeGate.eval]
  | negate i =>
    refine ⟨self.delta.plus (zeros.getD i .default), rfl, ?_⟩
    rw [FreeGate.evalLabel, getD_encode same, FreeGate.eval, label_negate]

/-- Free XOR over a circuit: garbling its gates in turn leaves the garbler's state as it was, and
for any input bits, the labels the evaluator computes from the labels of those bits are, wire by
wire, the labels of the circuit's bits on the zero labels the garbler answers. -/
theorem garbleWires_encodes (gates : List FreeGate) :
    ∀ {zeros : List WireMod2} {bits : List Bool}, zeros.length = bits.length →
    ∀ self : Rep3Garbler Rng,
      ∃ wires, (garbleWires zeros gates).run self = .ok wires self ∧
        wires.length = (evalWires bits gates).length ∧
        evalLabels (encode self.delta zeros bits) gates =
          encode self.delta wires (evalWires bits gates) := by
  induction gates with
  | nil => exact fun same self => ⟨_, rfl, same, rfl⟩
  | cons gate gates ih =>
    intro zeros bits same self
    obtain ⟨zero, garbled, labelled⟩ := garble_gate gate same self
    have extended : (zeros ++ [zero]).length = (bits ++ [gate.eval bits]).length := by simp [same]
    obtain ⟨wires, run, lengths, labels⟩ := ih extended self
    refine ⟨wires, ?_, lengths, ?_⟩
    · rw [garbleWires, run_bind, garbled]
      exact run
    · have appended : encode self.delta (zeros ++ [zero]) (bits ++ [gate.eval bits]) =
          encode self.delta zeros bits ++ [gate.evalLabel (encode self.delta zeros bits)] := by
        rw [labelled, encode, List.zipWith_append _ _ _ _ _ same]
        rfl
      rw [evalLabels, List.foldl_cons, ← appended]
      exact labels

/-! ## Revealing the outputs -/

section Reveal

variable {Fe Inputs : Type} (P : Primitives Rng Fe Inputs)

private theorem inbox_flush (self : Rep3Garbler Rng) :
    (flush P self).network.inbox = self.network.inbox := by
  obtain ⟨_ | _ | _⟩ := self <;> rfl

private theorem delta_flush (self : Rep3Garbler Rng) : (flush P self).delta = self.delta :=
  congrArg Session.delta (session_flush P self)

/-- Both reveals of a garbler of either role with a nonzero delta: once the evaluator answers
with the labels of some bits on the revealed wires, `output_all_parties` reads those bits back,
and `output_to_id0_and_id1` reads them back for `ID1` and answers nothing for `ID2`. -/
private theorem reveal_answered (self : Rep3Garbler Rng) (role : self.id ≠ .id0)
    (nonzero : self.delta ≠ .default) (x : List WireMod2) (vals : List Bool)
    (lengths : vals.length = x.length) (rest : List (List Block))
    (answered : self.network.inbox = encodeBits self.delta x vals :: rest) :
    outcome ((outputAllParties P x).run self) = .ok vals ∧
      outcome ((outputToId0AndId1 P x).run self) =
        .ok (if self.id = .id1 then some vals else none) := by
  obtain ⟨emitted, evaluated, same_id, same_inbox, same_delta⟩ : ∃ emitted,
      (outputEvaluator P x).run self = .ok () emitted ∧ emitted.id = self.id ∧
        emitted.network.inbox = self.network.inbox ∧ emitted.delta = self.delta :=
    ⟨_, outputEvaluator_run P role x, by simp, by simp, by simp⟩
  have waiting : (flush P emitted).network.inbox =
      encodeBits (flush P emitted).delta x vals :: rest := by
    rw [inbox_flush, same_inbox, answered, delta_flush, same_delta]
  have nonzero' : (flush P emitted).delta ≠ .default := by rwa [delta_flush, same_delta]
  obtain ⟨final, decoded⟩ :
      ∃ final, (outputGarbler x).run (flush P emitted) = .ok vals final := by
    have read := (outcome_outputGarbler x _ waiting vals).mpr
      ⟨by simp [encodeBits, lengths], decodeBlocks_encodeBits nonzero' lengths⟩
    revert read
    cases (outputGarbler x).run (flush P emitted) <;> simp [outcome]
  have role' : emitted.id ≠ .id0 := same_id ▸ role
  constructor
  · simp [outputAllParties, evaluated, role', decoded, outcome]
  · by_cases first : self.id = .id1 <;>
      simp [outputToId0AndId1, evaluated, decoded, outcome, same_id, role, first]

/-- A garbler with a nonzero delta that garbles free gates and reveals wires reads back the
circuit's plaintext bits there, when the evaluator answers with the labels it computed. -/
theorem garbled_circuit_reveals_outputs (gates : List FreeGate) (zeros : List WireMod2)
    (bits : List Bool) (same : zeros.length = bits.length) (outputs : List Nat)
    (self : Rep3Garbler Rng) (role : self.id ≠ .id0) (nonzero : self.delta ≠ .default)
    (rest : List (List Block))
    (answered : self.network.inbox = (outputs.map fun i =>
      ((evalLabels (encode self.delta zeros bits) gates).getD i .default).asBlock) :: rest) :
    outcome ((garbleWires zeros gates >>= fun wires =>
        outputAllParties P (outputs.map fun i => wires.getD i .default)).run self) =
      .ok (outputs.map fun i => (evalWires bits gates).getD i false) ∧
    outcome ((garbleWires zeros gates >>= fun wires =>
        outputToId0AndId1 P (outputs.map fun i => wires.getD i .default)).run self) =
      .ok (if self.id = .id1 then some (outputs.map fun i => (evalWires bits gates).getD i false)
        else none) := by
  obtain ⟨wires, garbled, lengths, labels⟩ := garbleWires_encodes gates same self
  have answer : (outputs.map fun i =>
      ((evalLabels (encode self.delta zeros bits) gates).getD i .default).asBlock) =
      encodeBits self.delta (outputs.map fun i => wires.getD i .default)
        (outputs.map fun i => (evalWires bits gates).getD i false) := by
    simp only [labels, getD_encode lengths, encodeBits, List.zipWith_map, List.zipWith_same]
    rfl
  simp only [run_bind, garbled]
  exact reveal_answered P self role nonzero _ _ (by simp) rest (answer ▸ answered)

end Reveal

/-- A circuit on two input wires: their XOR on wire 2, and its negation on wire 3. -/
def xorAndNot : List FreeGate := [.xor 0 1, .negate 2]

/-- An `ID1` garbler with delta `5` whose evaluator answered with its labels of wires 2 and 3
of `xorAndNot`, for the input bits `true` and `false` on the zero labels `1` and `2`. -/
def revealing : Rep3Garbler Nat :=
  init .id1 ⟨[], [[2, 3].map fun i =>
    ((evalLabels (encode ⟨5⟩ [⟨1⟩, ⟨2⟩] [true, false]) xorAndNot).getD i .default).asBlock]⟩ 0 ⟨5⟩

theorem garbled_circuit_reveals_outputs_of_xorAndNot :
    [(⟨1⟩ : WireMod2), ⟨2⟩].length = [true, false].length ∧ revealing.id ≠ .id0 ∧
    revealing.delta ≠ .default ∧
    revealing.network.inbox = ([2, 3].map fun i => ((evalLabels
      (encode revealing.delta [⟨1⟩, ⟨2⟩] [true, false]) xorAndNot).getD i .default).asBlock) ::
        [] ∧
    outcome ((garbleWires [⟨1⟩, ⟨2⟩] xorAndNot >>= fun wires =>
        outputAllParties Garbler.countingPrimitives
          ([2, 3].map fun i => wires.getD i .default)).run revealing) = .ok [true, false] ∧
    outcome ((garbleWires [⟨1⟩, ⟨2⟩] xorAndNot >>= fun wires =>
        outputToId0AndId1 Garbler.countingPrimitives
          ([2, 3].map fun i => wires.getD i .default)).run revealing) = .ok (some [true, false]) :=
  ⟨rfl, by decide, by decide, rfl, garbled_circuit_reveals_outputs Garbler.countingPrimitives
    xorAndNot [⟨1⟩, ⟨2⟩] [true, false] rfl [2, 3] revealing (by decide) (by decide) [] rfl⟩

end CoSnarks.Soundness.FreeXor
