import CoSnarks.Model.Yao.Garbler

/-! # What a garbler call does, apart from its role

A call draws from the randomness, may advance a counter and hands blocks to the sink; the role
only decides where the blocks go. `Session` is the role-free state and `Session.emit` a call's
blocks, and `call_run` proves that a garbler's call is that emission, put into its sink, flushed
if the call sends the circuit, and finished by reading the evaluator's answer where it does.
-/

namespace CoSnarks.Model.Yao

/-- The role-free part of a garbler: the session delta, the randomness and the two counters. -/
structure Session (Rng : Type) where
  delta : WireMod2
  rng : Rng
  current_output : Nat
  current_gate : Nat

variable {Rng Fe Inputs : Type} (P : Primitives Rng Fe Inputs)

/-- The two blocks `output` emits for the wire `x` under the output index `i`. -/
def outputBlocks (delta : WireMod2) (i : Nat) (x : WireMod2) : List Block :=
  [0, 1].map fun k => P.hash (x.plus (delta.cmul k)) (P.outputTweak i k)

/-- The blocks `outputs` emits for the wires `xs`, numbered from the output index `i`. -/
def outputsBlocks (delta : WireMod2) : Nat → List WireMod2 → List Block
  | _, [] => []
  | i, x :: xs => outputBlocks P delta i x ++ outputsBlocks delta (i + 1) xs

namespace Session

/-- The blocks a call emits, in order, and the session it leaves. -/
def emit : Op Fe → Session Rng → List Block × Session Rng
  | .constant x q, s =>
    let delta := s.delta.cmulEq x
    ([((P.rand s.rng q).1.plus delta).asBlock], { s with rng := (P.rand s.rng q).2, delta })
  | .and a b, s =>
    let gate := P.garbleAndGate s.current_gate a b s.delta
    ([gate.1, gate.2.1], { s with current_gate := s.current_gate + 1 })
  | .xor _ _, s => ([], s)
  | .negate _, s => ([], s)
  | .output x, s =>
    (outputBlocks P s.delta s.current_output x, { s with current_output := s.current_output + 1 })
  | .outputs xs, s => (outputsBlocks P s.delta s.current_output xs,
      { s with current_output := s.current_output + xs.length })
  | .encodeWire val, s => ([], { s with rng := (P.encodeWire s.rng s.delta val).2 })
  | .encodeField field, s => ([], { s with rng := (P.encodeField field s.rng s.delta).2 })
  | .addBundleToCircuit wires, s => (wires.map WireMod2.asBlock, s)
  | .sendCircuit, s => ([], s)
  | .outputAllParties xs, s => (outputsBlocks P s.delta s.current_output xs,
      { s with current_output := s.current_output + xs.length })
  | .outputToId0AndId1 xs, s => (outputsBlocks P s.delta s.current_output xs,
      { s with current_output := s.current_output + xs.length })

/-- The answer of a call that does not read from the evaluator, from the session it started in. -/
def answer : Op Fe → Session Rng → Reply Inputs
  | .constant _ q, s => .wire (P.rand s.rng q).1
  | .and a b, s => .wire (P.garbleAndGate s.current_gate a b s.delta).2.2
  | .xor x y, _ => .wire (x.plus y)
  | .negate x, s => .wire (s.delta.plus x)
  | .output _, _ => .output none
  | .outputs xs, _ => .outputs (xs.map fun _ => none).allSome
  | .encodeWire val, s => .wires (P.encodeWire s.rng s.delta val).1.1
      (P.encodeWire s.rng s.delta val).1.2
  | .encodeField field, s => .inputs (P.encodeField field s.rng s.delta).1
  | _, _ => .done

end Session

/-- The calls that end by sending the circuit. -/
def Op.flushes : Op Fe → Bool
  | .sendCircuit | .outputAllParties _ | .outputToId0AndId1 _ => true
  | _ => false

namespace Rep3Garbler

/-- The role-free part of a garbler's state. -/
def session (self : Rep3Garbler Rng) : Session Rng :=
  ⟨self.delta, self.rng, self.current_output, self.current_gate⟩

/-- A garbler with its role-free part replaced. -/
def resume (self : Rep3Garbler Rng) (session : Session Rng) : Rep3Garbler Rng :=
  { self with
    delta := session.delta
    rng := session.rng
    current_output := session.current_output
    current_gate := session.current_gate }

/-- `add_block_to_circuit` over several blocks, by role. -/
def absorb (self : Rep3Garbler Rng) (blocks : List Block) : Rep3Garbler Rng :=
  match self.id with
  | .id0 => self
  | .id1 => { self with circuit := self.circuit ++ blocks }
  | .id2 => { self with hash := self.hash ++ blocks.flatMap Block.bytes }

/-- `send_circuit`, by role. -/
def flush (self : Rep3Garbler Rng) : Rep3Garbler Rng :=
  match self.id with
  | .id0 => self
  | .id1 => { self with circuit := [], network := self.network.send (.blocks self.circuit) }
  | .id2 => { self with hash := [], network := self.network.send (.bytes (P.sha3 self.hash)) }

/-- The state a call leaves before it reads from the evaluator: its emission in the sink, and the
circuit sent if the call sends it. -/
def settle (op : Op Fe) (self : Rep3Garbler Rng) : Rep3Garbler Rng :=
  let emitted := Session.emit P op self.session
  let placed := (self.resume emitted.2).absorb emitted.1
  if op.flushes then flush P placed else placed

/-- How a call ends once its blocks are placed: the output calls read the evaluator's answer,
the others answer from the session they started in. -/
def conclude : Op Fe → Session Rng → GarblerM Rng (Reply Inputs)
  | .outputAllParties x, _ => .bits <$> outputGarbler x
  | .outputToId0AndId1 x, _ => .maybeBits <$> do
      let self ← get
      if self.id = .id1 then some <$> outputGarbler x else pure none
  | op, before => pure (Session.answer P op before)

section Fields

variable (self : Rep3Garbler Rng) (session : Session Rng) (blocks : List Block)

@[simp] theorem session_delta : self.session.delta = self.delta := rfl
@[simp] theorem session_rng : self.session.rng = self.rng := rfl
@[simp] theorem session_current_output : self.session.current_output = self.current_output := rfl
@[simp] theorem session_current_gate : self.session.current_gate = self.current_gate := rfl

@[simp] theorem session_resume : (self.resume session).session = session := rfl
@[simp] theorem resume_session : self.resume self.session = self := rfl
@[simp] theorem resume_resume (other : Session Rng) :
    (self.resume session).resume other = self.resume other := rfl
@[simp] theorem id_resume : (self.resume session).id = self.id := rfl
@[simp] theorem network_resume : (self.resume session).network = self.network := rfl
@[simp] theorem delta_resume : (self.resume session).delta = session.delta := rfl
@[simp] theorem current_output_resume :
    (self.resume session).current_output = session.current_output := rfl
@[simp] theorem current_gate_resume :
    (self.resume session).current_gate = session.current_gate := rfl

@[simp] theorem id_absorb : (self.absorb blocks).id = self.id := by
  obtain ⟨_ | _ | _⟩ := self <;> rfl

@[simp] theorem session_absorb : (self.absorb blocks).session = self.session := by
  obtain ⟨_ | _ | _⟩ := self <;> rfl

@[simp] theorem delta_absorb : (self.absorb blocks).delta = self.delta := by
  obtain ⟨_ | _ | _⟩ := self <;> rfl

@[simp] theorem current_output_absorb :
    (self.absorb blocks).current_output = self.current_output := by
  obtain ⟨_ | _ | _⟩ := self <;> rfl

@[simp] theorem network_absorb : (self.absorb blocks).network = self.network := by
  obtain ⟨_ | _ | _⟩ := self <;> rfl

@[simp] theorem resume_absorb : (self.absorb blocks).resume session =
    (self.resume session).absorb blocks := by
  obtain ⟨_ | _ | _⟩ := self <;> rfl

@[simp] theorem absorb_absorb (more : List Block) :
    (self.absorb blocks).absorb more = self.absorb (blocks ++ more) := by
  obtain ⟨_ | _ | _⟩ := self <;> simp [absorb]

@[simp] theorem absorb_nil : self.absorb [] = self := by
  obtain ⟨_ | _ | _⟩ := self <;> simp [absorb]

@[simp] theorem id_flush : (flush P self).id = self.id := by
  obtain ⟨_ | _ | _⟩ := self <;> rfl

@[simp] theorem session_flush : (flush P self).session = self.session := by
  obtain ⟨_ | _ | _⟩ := self <;> rfl

end Fields

/-! ## The run of each method -/

section Programs

variable {α β : Type}

@[simp] theorem run_get (self : Rep3Garbler Rng) :
    (get : GarblerM Rng (Rep3Garbler Rng)).run self = .ok self self := rfl

@[simp] theorem run_set (self other : Rep3Garbler Rng) :
    (set other : GarblerM Rng PUnit).run self = .ok () other := rfl

@[simp] theorem run_pure (a : α) (self : Rep3Garbler Rng) :
    (pure a : GarblerM Rng α).run self = .ok a self := rfl

@[simp] theorem run_throw (fault : Fault) (self : Rep3Garbler Rng) :
    (throw fault : GarblerM Rng α).run self = .error fault self := rfl

@[simp] theorem run_bind (x : GarblerM Rng α) (f : α → GarblerM Rng β) (self : Rep3Garbler Rng) :
    (x >>= f).run self = match x.run self with
      | .ok a next => (f a).run next
      | .error fault next => .error fault next := by
  delta EStateM.run
  simp only [bind, EStateM.bind]
  cases x self <;> rfl

@[simp] theorem run_map (x : GarblerM Rng α) (f : α → β) (self : Rep3Garbler Rng) :
    (f <$> x).run self = match x.run self with
      | .ok a next => .ok (f a) next
      | .error fault next => .error fault next := by
  delta EStateM.run
  simp only [Functor.map, EStateM.map]
  cases x self <;> rfl

end Programs

section Primitives

variable (self : Rep3Garbler Rng)

@[simp] theorem currentGate_run : (currentGate : GarblerM Rng Nat).run self =
    .ok self.current_gate (self.resume { self.session with current_gate := self.current_gate + 1 }) :=
  rfl

@[simp] theorem currentOutput_run : (currentOutput : GarblerM Rng Nat).run self =
    .ok self.current_output
      (self.resume { self.session with current_output := self.current_output + 1 }) := rfl

@[simp] theorem encodeWire_run (val : Nat) : (encodeWire P val).run self =
    .ok (P.encodeWire self.rng self.delta val).1
      (self.resume { self.session with rng := (P.encodeWire self.rng self.delta val).2 }) := rfl

@[simp] theorem encodeField_run (field : Fe) : (encodeField P field).run self =
    .ok (P.encodeField field self.rng self.delta).1
      (self.resume { self.session with rng := (P.encodeField field self.rng self.delta).2 }) := rfl

@[simp] theorem addBlockToCircuit_run (block : Block) :
    (addBlockToCircuit block).run self =
      if self.id = .id0 then .error notGarbler self else .ok () (self.absorb [block]) := by
  obtain ⟨_ | _ | _⟩ := self <;> simp [addBlockToCircuit, absorb]

@[simp] theorem sendCircuit_run : (sendCircuit P).run self =
    if self.id = .id0 then .error notGarbler self else .ok () (flush P self) := by
  obtain ⟨_ | _ | _⟩ := self <;> simp [sendCircuit, flush]

end Primitives

section Methods

variable {self : Rep3Garbler Rng} (role : self.id ≠ .id0)
include role

/-- A loop that hands each item's block to `add_block_to_circuit` absorbs them in order. -/
theorem forM_addBlockToCircuit_run {γ : Type} (items : List γ) (block : γ → Block) :
    (items.forM fun item => addBlockToCircuit (block item)).run self =
      .ok () (self.absorb (items.map block)) := by
  induction items generalizing self with
  | nil => simp
  | cons item rest ih => simp [role, ih]

theorem output_run (x : WireMod2) : (output P x).run self =
    .ok none ((self.resume { self.session with current_output := self.current_output + 1 }).absorb
      (outputBlocks P self.delta self.current_output x)) := by
  simp [output, role, outputBlocks]

theorem mapM_output_run (xs : List WireMod2) : (xs.mapM (output P)).run self =
    .ok (xs.map fun _ => none)
      ((self.resume { self.session with current_output := self.current_output + xs.length }).absorb
        (outputsBlocks P self.delta self.current_output xs)) := by
  induction xs generalizing self with
  | nil => simp only [List.mapM_nil, run_pure, outputsBlocks, absorb_nil]; rfl
  | cons x rest ih =>
    simp only [List.mapM_cons, run_bind, output_run P role, ih, id_absorb, id_resume, ne_eq, role,
      not_false_eq_true, run_pure]
    simp [outputsBlocks, Nat.add_assoc, Nat.add_comm 1]

theorem addBundleToCircuit_run (wires : List WireMod2) :
    (addBundleToCircuit wires).run self = .ok () (self.absorb (wires.map WireMod2.asBlock)) :=
  forM_addBlockToCircuit_run role wires WireMod2.asBlock

theorem outputEvaluator_run (xs : List WireMod2) : (outputEvaluator P xs).run self =
    .ok () ((self.resume { self.session with current_output := self.current_output + xs.length }).absorb
      (outputsBlocks P self.delta self.current_output xs)) := by
  simp [outputEvaluator, outputs, mapM_output_run P role, -List.mapM]

/-- A call of a garbler of either role is its emission placed in the role's sink, the circuit
sent if the call sends it, and then its answer, read from the evaluator where the call does. -/
theorem call_run (op : Op Fe) :
    (call P op).run self = (conclude P op self.session).run (settle P op self) := by
  cases op <;>
    simp [call, settle, conclude, Session.emit, Session.answer, Op.flushes, role, constant, and,
      garbleAndGate, xor, negate, addWireToCircuit, output_run P role, outputs,
      mapM_output_run P role, addBundleToCircuit_run role, outputAllParties, outputToId0AndId1,
      outputEvaluator_run P role, -List.mapM]
  -- `constant` leaves a literal structure where `settle` has `resume`
  rfl

end Methods

end Rep3Garbler

end CoSnarks.Model.Yao
