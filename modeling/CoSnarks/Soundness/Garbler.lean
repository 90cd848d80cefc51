import CoSnarks.Model.Yao.Transcript

/-! # What a garbling session guarantees

Gate and output indices are counters that only the calls using them advance. The two garblers
of a pair run one transcript, sent once as blocks and once as their digest. The delta stays
fixed except through `constant` with an even value. The constructors refuse the evaluator `ID0`,
so a garbler they build never panics.
-/

namespace CoSnarks.Soundness.Garbler

open CoSnarks.Model.Yao Rep3Garbler

variable {Rng Fe Inputs : Type} (P : Primitives Rng Fe Inputs)

/-! ## What each call costs -/

/-- The AND gates a call garbles. -/
def gates : Op Fe → Nat
  | .and _ _ => 1
  | _ => 0

/-- The wires a call passes to `output`. -/
def outputWires : Op Fe → Nat
  | .output _ => 1
  | .outputs xs | .outputAllParties xs | .outputToId0AndId1 xs => xs.length
  | _ => 0

/-- The blocks a call hands to the sink: one per constant, two per AND gate, two per output
wire, one per bundle wire, none for the free gates and the encodings. -/
def blockCount : Op Fe → Nat
  | .constant _ _ => 1
  | .and _ _ => 2
  | .output _ => 2
  | .outputs xs | .outputAllParties xs | .outputToId0AndId1 xs => 2 * xs.length
  | .addBundleToCircuit wires => wires.length
  | _ => 0

/-- Whether a call leaves the delta alone: every call but `constant` with an even value. -/
def keepsDelta : Op Fe → Bool
  | .constant x _ => x % 2 = 1
  | _ => true

/-- The AND gates of a list of calls. -/
def gateCount : List (Op Fe) → Nat
  | [] => 0
  | op :: ops => gates op + gateCount ops

/-- The output wires of a list of calls. -/
def outputCount : List (Op Fe) → Nat
  | [] => 0
  | op :: ops => outputWires op + outputCount ops

/-- The sizes of the batches a list of calls sends, and of what it leaves unsent, from `pending`
unsent blocks. -/
def batchSizes : List (Op Fe) → Nat → List Nat × Nat
  | [], pending => ([], pending)
  | op :: ops, pending =>
    if op.flushes then
      let rest := batchSizes ops 0
      ((pending + blockCount op) :: rest.1, rest.2)
    else batchSizes ops (pending + blockCount op)

private theorem length_outputsBlocks (delta : WireMod2) (i : Nat) (xs : List WireMod2) :
    (outputsBlocks P delta i xs).length = 2 * xs.length := by
  induction xs generalizing i with
  | nil => rfl
  | cons x xs ih => simp [outputsBlocks, outputBlocks, ih]; omega

section Emission

variable (op : Op Fe) (s : Session Rng)

private theorem emit_current_gate : (Session.emit P op s).2.current_gate = s.current_gate + gates op := by
  cases op <;> simp [Session.emit, gates]

private theorem emit_current_output :
    (Session.emit P op s).2.current_output = s.current_output + outputWires op := by
  cases op <;> simp [Session.emit, outputWires]

private theorem emit_length : (Session.emit P op s).1.length = blockCount op := by
  cases op <;> simp [Session.emit, blockCount, outputBlocks, length_outputsBlocks]

/-- Only `constant` moves the delta: it multiplies it by the constant. -/
private theorem emit_delta : (Session.emit P op s).2.delta =
    match op with
    | .constant x _ => s.delta.cmulEq x
    | _ => s.delta := by
  cases op <;> rfl

end Emission

/-! ## The transcript's counters and batches -/

theorem transcript_counters (ops : List (Op Fe)) (s : Session Rng) (pending : List Block) :
    (Session.transcript P ops s pending).session.current_gate = s.current_gate + gateCount ops ∧
    (Session.transcript P ops s pending).session.current_output =
      s.current_output + outputCount ops := by
  induction ops generalizing s pending with
  | nil => simp [Session.transcript, gateCount, outputCount]
  | cons op ops ih =>
    rw [transcript_cons]
    simp only [ih, emit_current_gate, emit_current_output, gateCount, outputCount]
    omega

theorem transcript_sizes (ops : List (Op Fe)) (s : Session Rng) (pending : List Block) :
    ((Session.transcript P ops s pending).batches.map List.length,
      (Session.transcript P ops s pending).pending.length) = batchSizes ops pending.length := by
  induction ops generalizing s pending with
  | nil => rfl
  | cons op ops ih =>
    rw [transcript_cons, batchSizes]
    by_cases flushes : op.flushes
    · simpa [flushes, emit_length, Prod.ext_iff] using ih (Session.emit P op s).2 []
    · simpa [flushes, emit_length] using
        ih (Session.emit P op s).2 (pending ++ (Session.emit P op s).1)

theorem transcript_delta (ops : List (Op Fe)) (s : Session Rng) (pending : List Block)
    (kept : ∀ op ∈ ops, keepsDelta op = true) :
    (Session.transcript P ops s pending).session.delta = s.delta := by
  induction ops generalizing s pending with
  | nil => rfl
  | cons op ops ih =>
    rw [transcript_cons]
    refine (ih _ _ fun later member => kept later (List.mem_cons_of_mem _ member)).trans ?_
    have here := kept op (List.mem_cons_self _ _)
    rw [emit_delta]
    cases op
    case constant x q => exact WireMod2.cmulEq_of_odd _ (by simpa [keepsDelta] using here)
    all_goals rfl

/-! ## Indices never repeat -/

/-- From zero counters, the next AND gate is garbled under the count of earlier ones, and every
output call hashes its wires under the count of earlier output wires. -/
theorem garbler_indices_follow_calls (g0 : Rep3Garbler Rng) (role : g0.id ≠ .id0)
    (gate_zero : g0.current_gate = 0) (output_zero : g0.current_output = 0)
    (pre : List (Op Fe)) :
    let g := (run P pre g0).2
    g.current_gate = gateCount pre ∧ g.current_output = outputCount pre ∧
    (∀ a b, (call P (.and a b)).run g =
      .ok (.wire (P.garbleAndGate (gateCount pre) a b g.delta).2.2)
        ((g.resume { g.session with current_gate := gateCount pre + 1 }).absorb
          [(P.garbleAndGate (gateCount pre) a b g.delta).1,
            (P.garbleAndGate (gateCount pre) a b g.delta).2.1])) ∧
    (∀ x, (call P (.output x)).run g =
      .ok (.output none) ((g.resume { g.session with current_output := outputCount pre + 1 }).absorb
        (outputBlocks P g.delta (outputCount pre) x))) ∧
    (∀ xs, (call P (.outputs xs)).run g =
      .ok (.outputs (xs.map fun _ => none).allSome)
        ((g.resume { g.session with current_output := outputCount pre + xs.length }).absorb
          (outputsBlocks P g.delta (outputCount pre) xs))) ∧
    (∀ xs, (call P (.outputAllParties xs)).run g = (conclude P (.outputAllParties xs) g.session).run
      (flush P ((g.resume { g.session with current_output := outputCount pre + xs.length }).absorb
        (outputsBlocks P g.delta (outputCount pre) xs)))) ∧
    (∀ xs, (call P (.outputToId0AndId1 xs)).run g = (conclude P (.outputToId0AndId1 xs) g.session).run
      (flush P ((g.resume { g.session with current_output := outputCount pre + xs.length }).absorb
        (outputsBlocks P g.delta (outputCount pre) xs)))) := by
  obtain ⟨session, id⟩ := run_session P role pre []
  obtain ⟨gate, output⟩ := transcript_counters P pre g0.session []
  have gate' : (run P pre g0).2.current_gate = gateCount pre := by
    simpa [gate_zero] using (congrArg Session.current_gate session).trans gate
  have output' : (run P pre g0).2.current_output = outputCount pre := by
    simpa [output_zero] using (congrArg Session.current_output session).trans output
  have role' : (run P pre g0).2.id ≠ .id0 := id ▸ role
  refine ⟨gate', output', fun a b => ?_, fun x => ?_, fun xs => ?_, fun xs => ?_, fun xs => ?_⟩
  all_goals simp [call_run P role', settle, conclude, Session.emit, Session.answer, Op.flushes,
    gate', output']

/-- Primitives over a counter, to run sessions on: each draw is the counter as a block. -/
def countingPrimitives : Primitives Nat Unit Unit where
  rand r _ := (⟨BitVec.ofNat 128 r⟩, r + 1)
  hash wire tweak := wire.val ^^^ tweak
  outputTweak i k := BitVec.ofNat 128 (2 * i + k)
  garbleAndGate n a b delta := (BitVec.ofNat 128 n, a.val ^^^ b.val ^^^ delta.val, ⟨a.val &&& b.val⟩)
  encodeWire r delta val :=
    ((⟨BitVec.ofNat 128 r⟩, ⟨BitVec.ofNat 128 r ^^^ (delta.cmul val).val⟩), r + 1)
  encodeField _ r _ := ((), r + 1)
  randomDelta r := (⟨BitVec.ofNat 128 (2 * r + 1)⟩, r + 1)
  sha3 bytes := bytes.take 32

/-- After an AND gate, a sent circuit and an output round, the next AND gate of an `ID1`
garbler is gate 1 and the next output wire is output 1. -/
theorem garbler_indices_after_one_round :
    (run countingPrimitives [.and ⟨1⟩ ⟨2⟩, .sendCircuit, .outputs [⟨3⟩]]
        (init .id1 ⟨[], []⟩ 0 ⟨1⟩)).2.current_gate = gateCount [.and ⟨1⟩ ⟨2⟩, .sendCircuit,
          (.outputs [⟨3⟩] : Op Unit)] ∧
    (run countingPrimitives [.and ⟨1⟩ ⟨2⟩, .sendCircuit, .outputs [⟨3⟩]]
        (init .id1 ⟨[], []⟩ 0 ⟨1⟩)).2.current_output = outputCount [.and ⟨1⟩ ⟨2⟩,
          .sendCircuit, (.outputs [⟨3⟩] : Op Unit)] :=
  let indices := garbler_indices_follow_calls countingPrimitives (init .id1 ⟨[], []⟩ 0 ⟨1⟩)
    (by decide) rfl rfl [.and ⟨1⟩ ⟨2⟩, .sendCircuit, .outputs [⟨3⟩]]
  ⟨indices.1, indices.2.1⟩

/-! ## The two garblers send one transcript -/

/-- Two garblers of a pair that start from one session and the same unsent blocks run any calls
as one transcript: `ID1` sends its batches and `ID2` their digests. -/
theorem garblers_send_one_transcript (buffering hashing : Rep3Garbler Rng)
    (buffers : buffering.id = .id1) (digests : hashing.id = .id2)
    (same : buffering.session = hashing.session)
    (unsent : hashing.hash = buffering.circuit.flatMap Block.bytes) (ops : List (Op Fe)) :
    let logical := Session.transcript P ops buffering.session buffering.circuit
    (run P ops buffering).2.session = logical.session ∧
    (run P ops hashing).2.session = logical.session ∧
    (∀ (i : Nat) (reply : Reply Inputs), logical.answers[i]? = some (some reply) →
      (run P ops buffering).1[i]? = some (.ok reply) ∧
      (run P ops hashing).1[i]? = some (.ok reply)) ∧
    (run P ops buffering).2.network.sent =
      buffering.network.sent ++ logical.batches.map .blocks ∧
    (run P ops hashing).2.network.sent = hashing.network.sent ++
      logical.batches.map (fun batch => .bytes (P.sha3 (batch.flatMap Block.bytes))) ∧
    (run P ops buffering).2.circuit = logical.pending ∧
    (run P ops hashing).2.hash = logical.pending.flatMap Block.bytes ∧
    (logical.batches.map List.length, logical.pending.length) =
      batchSizes ops buffering.circuit.length := by
  have holds : buffering.Holds buffering.circuit := by simp [Holds, buffers]
  have holds' : hashing.Holds buffering.circuit := by simp [Holds, digests, unsent]
  obtain ⟨session, id, final, sent, -, replies⟩ := run_refines P ops holds
  obtain ⟨session', id', final', sent', -, replies'⟩ := run_refines P ops holds'
  rw [← same] at session' sent' final' replies'
  refine ⟨session, session', fun i reply given => ⟨replies i reply given, replies' i reply given⟩,
    ?_, ?_, ?_, ?_, transcript_sizes P ops _ _⟩
  · simpa [buffers] using sent
  · simpa [digests] using sent'
  · simpa [Holds, id, buffers] using final
  · simpa [Holds, id', digests] using final'

theorem garblers_send_one_transcript_of_fresh :
    (run countingPrimitives [.and ⟨1⟩ ⟨2⟩, (.sendCircuit : Op Unit)]
      (init .id2 ⟨[], []⟩ 0 ⟨5⟩)).2.network.sent =
    [] ++ (Session.transcript countingPrimitives [.and ⟨1⟩ ⟨2⟩, (.sendCircuit : Op Unit)]
      (init .id1 ⟨[], []⟩ 0 ⟨5⟩).session []).batches.map
        (fun batch => .bytes (countingPrimitives.sha3 (batch.flatMap Block.bytes))) :=
  (garblers_send_one_transcript countingPrimitives (init .id1 ⟨[], []⟩ 0 ⟨5⟩)
    (init .id2 ⟨[], []⟩ 0 ⟨5⟩) rfl rfl rfl rfl _).2.2.2.2.1

/-! ## The delta -/

/-- `constant` with an even value leaves the garbler's delta zero, whatever its role, and
whether or not the call then panics. -/
theorem constant_even_clears_delta (self : Rep3Garbler Rng) (n q : Nat) :
    (after ((call P (.constant (2 * n) q)).run self)).delta = WireMod2.default := by
  obtain ⟨_ | _ | _⟩ := self <;> simp [call, constant, addWireToCircuit, after, absorb]

/-- The delta of a garbler stays fixed over every session with no `constant` of an even value. -/
theorem run_keeps_delta (self : Rep3Garbler Rng) (role : self.id ≠ .id0) (ops : List (Op Fe))
    (kept : ∀ op ∈ ops, keepsDelta op = true) : (run P ops self).2.delta = self.delta := by
  simpa [transcript_delta P ops _ [] kept] using
    congrArg Session.delta (run_session P role ops []).1

theorem run_keeps_delta_of_odd_constant :
    (run countingPrimitives [.constant 1 2, .and ⟨1⟩ ⟨2⟩, (.sendCircuit : Op Unit)]
      (init .id1 ⟨[], []⟩ 0 ⟨5⟩)).2.delta = ⟨5⟩ :=
  run_keeps_delta countingPrimitives _ (by decide) _ (by decide)

/-! ## Building a garbler -/

end CoSnarks.Soundness.Garbler
