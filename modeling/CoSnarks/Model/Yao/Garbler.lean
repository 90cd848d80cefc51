import CoSnarks.Model.Yao.Wire

/-! # The replicated three-party garbler

`Rep3Garbler` is the state of one garbler of the pair: its party, its channel to the evaluator
`ID0`, the session delta, the two counters, the randomness, and its sink: `ID1` buffers the
blocks of the circuit and sends them, `ID2` absorbs them into a SHA3-256 state and sends the
digest. Construction fails for `ID0`, which has no garbler randomness. Every method is an
`EStateM` program over this state, so a call that fails keeps the changes it made before
failing, as the `&mut self` methods do.
-/

namespace CoSnarks.Model.Yao

/-- What a garbler sends to `PartyID::ID0`. -/
inductive Message where
  /-- `send_many` of the buffered circuit. -/
  | blocks (batch : List Block)
  /-- `send` of a byte slice, the digest. -/
  | bytes (data : List UInt8)
deriving DecidableEq, Repr

/-- The garbler's side of its channel to `PartyID::ID0`. -/
structure Network where
  /-- Everything sent to `ID0`, oldest first. -/
  sent : List Message
  /-- The batches `ID0` sent that are not read yet, oldest first. -/
  inbox : List (List Block)
deriving DecidableEq, Repr

/-- `send` and `send_many` to `ID0`: the model's channel never fails. -/
def Network.send (network : Network) (message : Message) : Network :=
  { network with sent := network.sent ++ [message] }

/-- How a garbler call can end other than with a value. -/
inductive Fault where
  /-- An `std::io::Error` returned through `IoResult`. -/
  | io (message : String)
  /-- A `panic!`, which ends the thread. -/
  | panic (message : String)
deriving DecidableEq, Repr

/-- `Rep3Garbler`, with the fields of `io_context` it uses. -/
structure Rep3Garbler (Rng : Type) where
  /-- `io_context.id`. -/
  id : PartyID
  /-- `io_context.network`. -/
  network : Network
  delta : WireMod2
  current_output : Nat
  current_gate : Nat
  rng : Rng
  /-- The bytes absorbed by the `Sha3_256` state since it was last reset. -/
  hash : List UInt8
  circuit : List Block

/-- The garbler's methods: programs over its state that may fail. -/
abbrev GarblerM (Rng α : Type) := EStateM Fault (Rep3Garbler Rng) α

namespace Rep3Garbler

variable {Rng Fe Inputs : Type} (P : Primitives Rng Fe Inputs)

/-- The panic of a garbler built for the evaluator. -/
def notGarbler : Fault := .panic "Garbler should not be PartyID::ID0"

/-- Modelled from the spec: `generate_garbler_randomness(id)`, here the generator `seeded id`
that its seed starts. Only the two garblers have one: asking for the evaluator's is the fatal
role violation. -/
def generateGarblerRandomness (seeded : PartyID → Rng) : PartyID → Except Fault Rng
  | .id0 => throw notGarbler
  | id => pure (seeded id)

/-- The garbler `new_with_delta` builds around its generator: zero counters and an empty sink. -/
def init (id : PartyID) (network : Network) (rng : Rng) (delta : WireMod2) : Rep3Garbler Rng :=
  { id, network, delta, current_output := 0, current_gate := 0, rng, hash := [], circuit := [] }

/-- `Rep3Garbler::new_with_delta`. -/
def newWithDelta (id : PartyID) (network : Network) (seeded : PartyID → Rng) (delta : WireMod2) :
    Except Fault (Rep3Garbler Rng) := do
  let rng ← generateGarblerRandomness seeded id
  pure (init id network rng delta)

/-- `Rep3Garbler::new`: a random delta drawn from the garbler's own randomness. -/
def new (id : PartyID) (network : Network) (seeded : PartyID → Rng) :
    Except Fault (Rep3Garbler Rng) := do
  let res ← newWithDelta id network seeded WireMod2.default
  let (delta, rng) := P.randomDelta res.rng
  pure { res with delta, rng }

/-- `add_block_to_circuit`: `ID1` buffers the block, `ID2` hashes its bytes. -/
def addBlockToCircuit (block : Block) : GarblerM Rng Unit := do
  let self ← get
  match self.id with
  | .id0 => throw notGarbler
  | .id1 => set { self with circuit := self.circuit ++ [block] }
  | .id2 => set { self with hash := self.hash ++ block.bytes }

/-- `send_circuit`: `ID1` sends its buffer and empties it, `ID2` sends the digest and resets its
hash. -/
def sendCircuit : GarblerM Rng Unit := do
  let self ← get
  match self.id with
  | .id0 => throw notGarbler
  | .id1 => set { self with circuit := [], network := self.network.send (.blocks self.circuit) }
  | .id2 => set { self with hash := [], network := self.network.send (.bytes (P.sha3 self.hash)) }

/-- `encode_field`. -/
def encodeField (field : Fe) : GarblerM Rng Inputs := modifyGet fun self =>
  let (inputs, rng) := P.encodeField field self.rng self.delta
  (inputs, { self with rng })

/-- `current_gate`: the next gate index, then one more. -/
def currentGate : GarblerM Rng Nat := modifyGet fun self =>
  (self.current_gate, { self with current_gate := self.current_gate + 1 })

/-- `current_output`: the next output index, then one more. -/
def currentOutput : GarblerM Rng Nat := modifyGet fun self =>
  (self.current_output, { self with current_output := self.current_output + 1 })

/-- `read_blocks`: the next batch from `ID0`. Modelled from the channel: with nothing left to
read, the receive fails. -/
def readBlocks : GarblerM Rng (List Block) := do
  let self ← get
  match self.network.inbox with
  | [] => throw (.io "recv_many from PartyID::ID0 failed")
  | rcv :: rest =>
    set { self with network := { self.network with inbox := rest } }
    pure rcv

/-- The loop of `output_garbler`: a block equal to the zero label is `false`, one equal to the
zero label plus delta is `true`, and any other block fails. -/
def decodeBlocks (delta : WireMod2) : List (Block × WireMod2) → Except Fault (List Bool)
  | [] => pure []
  | (block, zero) :: rest =>
    if block = zero.asBlock then (false :: ·) <$> decodeBlocks delta rest
    else if block = (zero.plus delta).asBlock then (true :: ·) <$> decodeBlocks delta rest
    else throw (.io "Invalid block received")

/-- `output_garbler`: the evaluator's blocks for the wires `x`, decoded. -/
def outputGarbler (x : List WireMod2) : GarblerM Rng (List Bool) := do
  let blocks ← readBlocks
  if blocks.length ≠ x.length then throw (.io "Invalid number of blocks received")
  let self ← get
  match decodeBlocks self.delta (blocks.zip x) with
  | .ok result => pure result
  | .error fault => throw fault

/-- `add_wire_to_circuit`. -/
def addWireToCircuit (wire : WireMod2) : GarblerM Rng Unit := addBlockToCircuit wire.asBlock

/-- `add_bundle_to_circuit`: every wire of the bundle, in order. -/
def addBundleToCircuit (wires : List WireMod2) : GarblerM Rng Unit := wires.forM addWireToCircuit

/-- `encode_wire`. -/
def encodeWire (val : Nat) : GarblerM Rng (WireMod2 × WireMod2) := modifyGet fun self =>
  let (wires, rng) := P.encodeWire self.rng self.delta val
  (wires, { self with rng })

/-- `garble_and_gate`: the gate is garbled under the next gate index. -/
def garbleAndGate (a b : WireMod2) : GarblerM Rng (Block × Block × WireMod2) := do
  let gate_num ← currentGate
  let self ← get
  pure (P.garbleAndGate gate_num a b self.delta)

/-- `Fancy::constant`: `cmul_eq` writes the multiplied delta back into `self.delta`. -/
def constant (x q : Nat) : GarblerM Rng WireMod2 := do
  let self ← get
  let (zero, rng) := P.rand self.rng q
  let delta := self.delta.cmulEq x
  set { self with rng, delta }
  let wire := zero.plus delta
  addWireToCircuit wire
  pure zero

/-- `Fancy::output`: two tweaked hashes per wire, under the next output index. -/
def output (x : WireMod2) : GarblerM Rng (Option Nat) := do
  let i ← currentOutput
  let self ← get
  let d := self.delta
  [0, 1].forM fun k => addBlockToCircuit (P.hash (x.plus (d.cmul k)) (P.outputTweak i k))
  pure none

/-- `Fancy::outputs`, the trait's default: `output` on each wire, the results collected. -/
def outputs (xs : List WireMod2) : GarblerM Rng (Option (List Nat)) := do
  let outputs ← xs.mapM (output P)
  pure outputs.allSome

/-- `output_evaluator`: `outputs`, whose only error, a `GarblerError`, `output` never returns. -/
def outputEvaluator (x : List WireMod2) : GarblerM Rng Unit := do
  let _ ← outputs P x
  pure ()

/-- `output_all_parties`. -/
def outputAllParties (x : List WireMod2) : GarblerM Rng (List Bool) := do
  outputEvaluator P x
  sendCircuit P
  outputGarbler x

/-- `output_to_id0_and_id1`: only `ID1` reads the result back. -/
def outputToId0AndId1 (x : List WireMod2) : GarblerM Rng (Option (List Bool)) := do
  outputEvaluator P x
  sendCircuit P
  let self ← get
  if self.id = .id1 then some <$> outputGarbler x else pure none

/-- `FancyBinary::and`. -/
def and (a b : WireMod2) : GarblerM Rng WireMod2 := do
  let (gate0, gate1, c) ← garbleAndGate P a b
  addBlockToCircuit gate0
  addBlockToCircuit gate1
  pure c

/-- `FancyBinary::xor`: free. -/
def xor (x y : WireMod2) : GarblerM Rng WireMod2 := pure (x.plus y)

/-- `FancyBinary::negate`: XOR with delta. -/
def negate (x : WireMod2) : GarblerM Rng WireMod2 := do
  let self ← get
  xor self.delta x

end Rep3Garbler

/-- The public methods a protocol drives a garbler with. -/
inductive Op (Fe : Type) where
  | constant (x q : Nat)
  | and (a b : WireMod2)
  | xor (x y : WireMod2)
  | negate (x : WireMod2)
  | output (x : WireMod2)
  | outputs (xs : List WireMod2)
  | encodeWire (val : Nat)
  | encodeField (field : Fe)
  | addBundleToCircuit (wires : List WireMod2)
  | sendCircuit
  | outputAllParties (x : List WireMod2)
  | outputToId0AndId1 (x : List WireMod2)

/-- What a method returns. -/
inductive Reply (Inputs : Type) where
  | wire (label : WireMod2)
  | wires (zero value : WireMod2)
  | inputs (inputs : Inputs)
  | output (value : Option Nat)
  | outputs (values : Option (List Nat))
  | done
  | bits (values : List Bool)
  | maybeBits (values : Option (List Bool))

namespace Rep3Garbler

variable {Rng Fe Inputs : Type} (P : Primitives Rng Fe Inputs)

/-- One method call. -/
def call : Op Fe → GarblerM Rng (Reply Inputs)
  | .constant x q => .wire <$> constant P x q
  | .and a b => .wire <$> and P a b
  | .xor x y => .wire <$> xor x y
  | .negate x => .wire <$> negate x
  | .output x => .output <$> output P x
  | .outputs xs => .outputs <$> outputs P xs
  | .encodeWire val => (fun wires => .wires wires.1 wires.2) <$> encodeWire P val
  | .encodeField field => .inputs <$> encodeField P field
  | .addBundleToCircuit wires => (fun _ => .done) <$> addBundleToCircuit wires
  | .sendCircuit => (fun _ => .done) <$> sendCircuit P
  | .outputAllParties x => .bits <$> outputAllParties P x
  | .outputToId0AndId1 x => .maybeBits <$> outputToId0AndId1 P x

/-- A session: the calls in order, each answered. A returned error leaves the state as the call
left it and the session goes on; a panic ends it. -/
def run : List (Op Fe) → Rep3Garbler Rng → List (Except Fault (Reply Inputs)) × Rep3Garbler Rng
  | [], self => ([], self)
  | op :: ops, self =>
    match (call P op).run self with
    | .ok reply self => let rest := run ops self; (.ok reply :: rest.1, rest.2)
    | .error (.io message) self => let rest := run ops self; (.error (.io message) :: rest.1, rest.2)
    | .error (.panic message) self => ([.error (.panic message)], self)

end Rep3Garbler

end CoSnarks.Model.Yao
