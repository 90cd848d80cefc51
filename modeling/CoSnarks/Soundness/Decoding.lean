import CoSnarks.Model.Yao.Transcript

/-! # Decoding the evaluator's answer

After the circuit is sent, `output_garbler` reads one block per output wire back from the
evaluator and classifies each against its wire's two labels: the zero label reads `false`, the
zero label plus delta reads `true`, and any other block is malformed. With a nonzero delta the
two labels differ, so decoding succeeds exactly on blocks that are one of their wire's labels,
reads each as the bit it stands for, and decodes the labels of any bit list back to that list.
-/

namespace CoSnarks.Soundness.Decoding

open CoSnarks.Model.Yao Rep3Garbler

variable {delta : WireMod2}

/-- One block of the decoding loop: it must be one of its wire's two labels, and it reads `true`
exactly when it is the zero label plus delta. -/
private theorem decodeBlocks_cons (nonzero : delta ≠ WireMod2.default) (block : Block) (zero : WireMod2)
    (rest : List (Block × WireMod2)) {bits : List Bool} :
    decodeBlocks delta ((block, zero) :: rest) = .ok bits ↔
      (block = zero.asBlock ∨ block = (zero.plus delta).asBlock) ∧
        ∃ tail, decodeBlocks delta rest = .ok tail ∧
          bits = decide (block = (zero.plus delta).asBlock) :: tail := by
  have apart := WireMod2.asBlock_plus_ne zero nonzero
  by_cases low : block = zero.asBlock
  · subst low
    cases tail : decodeBlocks delta rest <;>
      simp [decodeBlocks, tail, apart.symm, Functor.map, Except.map, eq_comm]
  · by_cases high : block = (zero.plus delta).asBlock
    · subst high
      cases tail : decodeBlocks delta rest <;>
        simp [decodeBlocks, tail, apart, Functor.map, Except.map, eq_comm]
    · simp [decodeBlocks, low, high, throw, throwThe, MonadExceptOf.throw]

/-- The decoding loop succeeds exactly when every block is one of its wire's two labels, and then
reads `true` for the blocks equal to the zero label plus delta. -/
theorem decodeBlocks_eq_ok (nonzero : delta ≠ WireMod2.default)
    {pairs : List (Block × WireMod2)} {bits : List Bool} :
    decodeBlocks delta pairs = .ok bits ↔
      (∀ pair ∈ pairs, pair.1 = pair.2.asBlock ∨ pair.1 = (pair.2.plus delta).asBlock) ∧
        bits = pairs.map fun pair => decide (pair.1 = (pair.2.plus delta).asBlock) := by
  induction pairs generalizing bits with
  | nil => simp [decodeBlocks, pure, Except.pure, eq_comm]
  | cons head rest ih =>
    obtain ⟨block, zero⟩ := head
    simp only [decodeBlocks_cons nonzero, ih, List.forall_mem_cons, List.map_cons]
    constructor
    · rintro ⟨label, _, ⟨labels, rfl⟩, rfl⟩
      exact ⟨⟨label, labels⟩, rfl⟩
    · rintro ⟨⟨label, labels⟩, rfl⟩
      exact ⟨label, _, ⟨labels, rfl⟩, rfl⟩

/-- The labels of a list of bits, one per wire: the zero label for `false`, the zero label plus
delta for `true`. -/
def encodeBits (delta : WireMod2) (x : List WireMod2) (bits : List Bool) : List Block :=
  List.zipWith (fun zero bit => (zero.plus (delta.cmul bit.toNat)).asBlock) x bits

/-- Decoding the labels of any bit list gives the bit list back. -/
theorem decodeBlocks_encodeBits (nonzero : delta ≠ WireMod2.default) :
    ∀ {x : List WireMod2} {bits : List Bool}, bits.length = x.length →
      decodeBlocks delta ((encodeBits delta x bits).zip x) = .ok bits
  | [], [], _ => rfl
  | zero :: x, bit :: bits, lengths => by
    have apart := WireMod2.asBlock_plus_ne zero nonzero
    refine (decodeBlocks_cons nonzero _ zero _).mpr ⟨?_, bits,
      decodeBlocks_encodeBits nonzero (Nat.succ.inj lengths), ?_⟩ <;>
      cases bit <;> simp [apart.symm]

section Garbler

variable {Rng : Type} (x : List WireMod2) (self : Rep3Garbler Rng) {blocks : List Block}
  {rest : List (List Block)} (inbox : self.network.inbox = blocks :: rest)

include inbox

/-- `output_garbler` answers exactly when the evaluator sent one block per wire and those blocks
decode. -/
theorem outcome_outputGarbler (bits : List Bool) :
    outcome ((outputGarbler x).run self) = .ok bits ↔
      blocks.length = x.length ∧ decodeBlocks self.delta (blocks.zip x) = .ok bits := by
  unfold outputGarbler readBlocks
  simp only [run_bind, run_get, inbox, run_set, run_pure]
  by_cases lengths : blocks.length = x.length
  · simp only [lengths, ne_eq, not_true_eq_false, if_false, run_pure, run_bind, run_get, true_and]
    split <;> simp_all [outcome]
  · simp [lengths, outcome]

/-- Under a nonzero delta, `output_garbler` answers exactly when each block is one of its wire's
two labels, reads `true` at the zero label plus delta, and decodes any bits' labels to them. -/
theorem outputGarbler_decodes (nonzero : self.delta ≠ WireMod2.default) :
    ((∃ bits, outcome ((outputGarbler x).run self) = .ok bits) ↔
      blocks.length = x.length ∧ ∀ (i : Nat) (block : Block) (zero : WireMod2),
        blocks[i]? = some block → x[i]? = some zero →
          block = zero.asBlock ∨ block = (zero.plus self.delta).asBlock) ∧
    (∀ bits, outcome ((outputGarbler x).run self) = .ok bits →
      bits.length = x.length ∧ ∀ (i : Nat) (block : Block) (zero : WireMod2),
        blocks[i]? = some block → x[i]? = some zero →
          (bits[i]? = some true ↔ block = (zero.plus self.delta).asBlock)) ∧
    ∀ bits : List Bool, bits.length = x.length → blocks = encodeBits self.delta x bits →
      outcome ((outputGarbler x).run self) = .ok bits := by
  refine ⟨⟨?_, ?_⟩, fun bits answered => ?_, fun bits lengths encoded => ?_⟩
  · rintro ⟨bits, answered⟩
    obtain ⟨lengths, decoded⟩ := (outcome_outputGarbler x self inbox bits).mp answered
    obtain ⟨labels, -⟩ := (decodeBlocks_eq_ok nonzero).mp decoded
    exact ⟨lengths, fun i block zero sent wire =>
      labels (block, zero) (List.getElem?_mem (List.getElem?_zip_eq_some.mpr ⟨sent, wire⟩))⟩
  · rintro ⟨lengths, labels⟩
    refine ⟨_, (outcome_outputGarbler x self inbox _).mpr
      ⟨lengths, (decodeBlocks_eq_ok nonzero).mpr ⟨fun pair member => ?_, rfl⟩⟩⟩
    obtain ⟨i, found⟩ := List.mem_iff_getElem?.mp member
    obtain ⟨sent, wire⟩ := List.getElem?_zip_eq_some.mp found
    exact labels i _ _ sent wire
  · obtain ⟨lengths, decoded⟩ := (outcome_outputGarbler x self inbox bits).mp answered
    obtain ⟨-, rfl⟩ := (decodeBlocks_eq_ok nonzero).mp decoded
    refine ⟨by simp [lengths], fun i block zero sent wire => ?_⟩
    have zipped : (blocks.zip x)[i]? = some (block, zero) :=
      List.getElem?_zip_eq_some.mpr ⟨sent, wire⟩
    simp [List.getElem?_map, zipped]
  · refine (outcome_outputGarbler x self inbox bits).mpr ⟨?_, ?_⟩
    · simp [encoded, encodeBits, lengths]
    · rw [encoded]
      exact decodeBlocks_encodeBits nonzero lengths

end Garbler

/-- A garbler with delta `5` whose evaluator answered for the wires `1` and `2` with the zero
label of the first and the one label of the second. -/
def answering : Rep3Garbler Nat :=
  init .id1 ⟨[], [[1, 7]]⟩ 0 ⟨5⟩

theorem outputGarbler_decodes_of_answer :
    answering.network.inbox = [1, 7] :: [] ∧ answering.delta ≠ WireMod2.default ∧
    (((∃ bits, outcome ((outputGarbler [⟨1⟩, ⟨2⟩]).run answering) = .ok bits) ↔
      [(1 : Block), 7].length = [(⟨1⟩ : WireMod2), ⟨2⟩].length ∧
        ∀ (i : Nat) (block : Block) (zero : WireMod2),
          [(1 : Block), 7][i]? = some block → [(⟨1⟩ : WireMod2), ⟨2⟩][i]? = some zero →
            block = zero.asBlock ∨ block = (zero.plus answering.delta).asBlock) ∧
    (∀ bits, outcome ((outputGarbler [⟨1⟩, ⟨2⟩]).run answering) = .ok bits →
      bits.length = [(⟨1⟩ : WireMod2), ⟨2⟩].length ∧ ∀ (i : Nat) (block : Block) (zero : WireMod2),
        [(1 : Block), 7][i]? = some block → [(⟨1⟩ : WireMod2), ⟨2⟩][i]? = some zero →
          (bits[i]? = some true ↔ block = (zero.plus answering.delta).asBlock)) ∧
    ∀ bits : List Bool, bits.length = [(⟨1⟩ : WireMod2), ⟨2⟩].length →
      [(1 : Block), 7] = encodeBits answering.delta [⟨1⟩, ⟨2⟩] bits →
        outcome ((outputGarbler [⟨1⟩, ⟨2⟩]).run answering) = .ok bits) :=
  ⟨rfl, by decide, outputGarbler_decodes [⟨1⟩, ⟨2⟩] answering rfl (by decide)⟩

end CoSnarks.Soundness.Decoding
