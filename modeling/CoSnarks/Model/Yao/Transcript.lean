import CoSnarks.Model.Yao.Session

/-! # The transcript of a garbling session

A session, apart from the role that runs it, is the stream of emitted blocks cut into batches at
each call that sends the circuit. `Session.transcript` computes it from the calls alone. A
garbler of either role runs a session as that transcript: `ID1` sends each batch, `ID2` sends its
digest, each sink holds the blocks emitted since the last send, and every call that does not
read back from the evaluator answers as the transcript says.
-/

namespace CoSnarks.Model.Yao

variable {Rng Fe Inputs : Type} (P : Primitives Rng Fe Inputs)

/-- The calls whose answer comes back from the evaluator. -/
def Op.readsBack : Op Fe → Bool
  | .outputAllParties _ | .outputToId0AndId1 _ => true
  | _ => false

/-- A session's record: the batches sent, the blocks emitted since the last send, the session
state, and each call's answer unless the evaluator gives it. -/
structure Transcript (Rng Inputs : Type) where
  batches : List (List Block)
  pending : List Block
  session : Session Rng
  answers : List (Option (Reply Inputs))

/-- The transcript of the calls `ops` from the session `s` with the blocks `pending` unsent. -/
def Session.transcript : List (Op Fe) → Session Rng → List Block → Transcript Rng Inputs
  | [], s, pending => ⟨[], pending, s, []⟩
  | op :: ops, s, pending =>
    let emitted := Session.emit P op s
    let reply := if op.readsBack then none else some (Session.answer P op s)
    if op.flushes then
      let rest := Session.transcript ops emitted.2 []
      { rest with batches := (pending ++ emitted.1) :: rest.batches, answers := reply :: rest.answers }
    else
      let rest := Session.transcript ops emitted.2 (pending ++ emitted.1)
      { rest with answers := reply :: rest.answers }

/-- What a garbler of a role sends for a batch: `ID2` its SHA3-256 digest, `ID1` the batch. -/
def sends (id : PartyID) (batch : List Block) : Message :=
  match id with
  | .id2 => .bytes (P.sha3 (batch.flatMap Block.bytes))
  | _ => .blocks batch

@[simp] theorem sends_id1 : sends P .id1 = Message.blocks := rfl

@[simp] theorem sends_id2 :
    sends P .id2 = fun batch => .bytes (P.sha3 (batch.flatMap Block.bytes)) := rfl

/-- Whether a fault is a panic. -/
def Fault.isPanic : Fault → Bool
  | .io _ => false
  | .panic _ => true

namespace Rep3Garbler

/-- A garbler's sink holds exactly the blocks `pending`: `ID1` buffers them, `ID2` has absorbed
their bytes. An `ID0` garbler has no sink. -/
def Holds (self : Rep3Garbler Rng) (pending : List Block) : Prop :=
  match self.id with
  | .id0 => False
  | .id1 => self.circuit = pending
  | .id2 => self.hash = pending.flatMap Block.bytes

/-- A garbler whose channel has the unread batches `inbox`. -/
def withInbox (self : Rep3Garbler Rng) (inbox : List (List Block)) : Rep3Garbler Rng :=
  { self with network := { self.network with inbox } }

/-- The state a call leaves, answered or failed. -/
def after {α : Type} : EStateM.Result Fault (Rep3Garbler Rng) α → Rep3Garbler Rng
  | .ok _ self => self
  | .error _ self => self

/-- What a call answers the caller. -/
def outcome {α : Type} : EStateM.Result Fault (Rep3Garbler Rng) α → Except Fault α
  | .ok a _ => .ok a
  | .error fault _ => .error fault

/-- Whether a call panicked. -/
def panicked {α : Type} : EStateM.Result Fault (Rep3Garbler Rng) α → Bool
  | .ok _ _ => false
  | .error fault _ => fault.isPanic

section Sinks

variable {self : Rep3Garbler Rng} {pending : List Block}

theorem ne_id0_of_holds (holds : self.Holds pending) : self.id ≠ .id0 := by
  intro id0
  simp [Holds, id0] at holds

theorem holds_resume (holds : self.Holds pending) (session : Session Rng) :
    (self.resume session).Holds pending :=
  holds

theorem holds_absorb (holds : self.Holds pending) (blocks : List Block) :
    (self.absorb blocks).Holds (pending ++ blocks) := by
  obtain ⟨_ | _ | _⟩ := self <;> simp_all [Holds, absorb]

theorem holds_flush (holds : self.Holds pending) :
    (flush P self).Holds [] ∧
      (flush P self).network.sent = self.network.sent ++ [sends P self.id pending] := by
  obtain ⟨_ | _ | _⟩ := self <;> simp_all [Holds, flush, sends, Network.send]

theorem holds_withInbox (holds : self.Holds pending) (inbox : List (List Block)) :
    (self.withInbox inbox).Holds pending :=
  holds

@[simp] theorem session_withInbox (inbox : List (List Block)) :
    (self.withInbox inbox).session = self.session := rfl

@[simp] theorem id_withInbox (inbox : List (List Block)) : (self.withInbox inbox).id = self.id :=
  rfl

@[simp] theorem sent_withInbox (inbox : List (List Block)) :
    (self.withInbox inbox).network.sent = self.network.sent := rfl

@[simp] theorem withInbox_inbox : self.withInbox self.network.inbox = self := rfl

end Sinks

theorem decodeBlocks_not_panic {delta : WireMod2} {pairs : List (Block × WireMod2)}
    {fault : Fault} (failed : decodeBlocks delta pairs = .error fault) : fault.isPanic = false := by
  induction pairs with
  | nil => cases failed
  | cons pair rest ih =>
    obtain ⟨block, zero⟩ := pair
    simp only [decodeBlocks] at failed
    split_ifs at failed
    all_goals first
      | cases failed; rfl
      | cases h : decodeBlocks delta rest <;> simp_all [Functor.map, Except.map]

/-- Reading back from the evaluator only consumes the channel, and fails without panicking. -/
theorem outputGarbler_frame (x : List WireMod2) (self : Rep3Garbler Rng) :
    ∃ inbox, after ((outputGarbler x).run self) = self.withInbox inbox ∧
      panicked ((outputGarbler x).run self) = false := by
  unfold outputGarbler readBlocks
  cases h : self.network.inbox with
  | nil =>
    refine ⟨[], ?_, by simp [h, panicked, Fault.isPanic]⟩
    simp only [run_bind, run_get, h, run_throw, after]
    rw [← h, withInbox_inbox]
  | cons rcv rest =>
    refine ⟨rest, ?_⟩
    by_cases lengths : rcv.length = x.length
    · simp only [run_bind, run_get, h, run_set, run_pure, lengths, ne_eq, not_true_eq_false,
        if_false]
      split
      · simp [after, panicked, withInbox]
      · simp [after, panicked, withInbox, decodeBlocks_not_panic ‹_›]
    · simp [h, lengths, after, panicked, withInbox, Fault.isPanic]

/-- How a call ends changes at most the channel's unread batches, never panics, and answers as
the transcript does unless the call reads back from the evaluator. -/
theorem conclude_frame (op : Op Fe) (before : Session Rng) (self : Rep3Garbler Rng) :
    (∃ inbox, after ((conclude P op before).run self) = self.withInbox inbox) ∧
    panicked ((conclude P op before).run self) = false ∧
    (op.readsBack = false →
      (conclude P op before).run self = .ok (Session.answer P op before) self) := by
  cases op
  case outputAllParties x =>
    obtain ⟨inbox, left, calm⟩ := outputGarbler_frame x self
    refine ⟨⟨inbox, ?_⟩, ?_, nofun⟩ <;>
      cases h : (outputGarbler x).run self <;> simp_all [conclude, after, panicked]
  case outputToId0AndId1 x =>
    obtain ⟨inbox, left, calm⟩ := outputGarbler_frame x self
    by_cases reads : self.id = .id1
    · refine ⟨⟨inbox, ?_⟩, ?_, nofun⟩ <;>
        cases h : (outputGarbler x).run self <;> simp_all [conclude, after, panicked]
    · exact ⟨⟨self.network.inbox, by simp [conclude, reads, after]⟩,
        by simp [conclude, reads, panicked], nofun⟩
  all_goals exact ⟨⟨self.network.inbox, rfl⟩, rfl, fun _ => rfl⟩

/-- The transcript of one more call: the call's emission joins the unsent blocks, which become a
batch if the call sends the circuit. -/
theorem transcript_cons (op : Op Fe) (ops : List (Op Fe)) (s : Session Rng)
    (pending : List Block) :
    Session.transcript P (op :: ops) s pending =
      let emitted := Session.emit P op s
      let rest := Session.transcript P ops emitted.2
        (if op.flushes then [] else pending ++ emitted.1)
      { rest with
        batches := (if op.flushes then [pending ++ emitted.1] else []) ++ rest.batches
        answers := (if op.readsBack then none else some (Session.answer P op s)) :: rest.answers } := by
  by_cases flushes : op.flushes <;> simp [Session.transcript, flushes]

section Runs

variable {self : Rep3Garbler Rng} {pending : List Block}

/-- Before it reads back, a call of a garbler with a sink leaves the emitted blocks in the sink,
or sends them with the unsent ones. -/
theorem settle_spec (holds : self.Holds pending) (op : Op Fe) :
    let emitted := Session.emit P op self.session
    (settle P op self).session = emitted.2 ∧ (settle P op self).id = self.id ∧
    (settle P op self).Holds (if op.flushes then [] else pending ++ emitted.1) ∧
    (settle P op self).network.sent = self.network.sent ++
      (if op.flushes then [sends P self.id (pending ++ emitted.1)] else []) := by
  have placed := holds_absorb (holds_resume holds (Session.emit P op self.session).2)
    (Session.emit P op self.session).1
  by_cases flushes : op.flushes
  · obtain ⟨emptied, sent⟩ := holds_flush P placed
    simp_all [settle]
  · simp_all [settle]

/-- A garbler with a sink never panics. -/
theorem call_calm (holds : self.Holds pending) (op : Op Fe) :
    panicked ((call P op).run self) = false := by
  rw [call_run P (ne_id0_of_holds holds)]
  exact (conclude_frame P op _ _).2.1

theorem run_cons_of_calm {op : Op Fe} {ops : List (Op Fe)}
    (calm : panicked ((call P op).run self) = false) :
    run P (op :: ops) self =
      (outcome ((call P op).run self) :: (run P ops (after ((call P op).run self))).1,
        (run P ops (after ((call P op).run self))).2) := by
  simp only [run]
  split <;> simp_all [panicked, outcome, after, Fault.isPanic]

/-- The role-free part of any garbler but the evaluator's follows the transcript. -/
theorem run_session (role : self.id ≠ .id0) (ops : List (Op Fe)) (pending : List Block) :
    (run P ops self).2.session = (Session.transcript P ops self.session pending).session ∧
    (run P ops self).2.id = self.id := by
  induction ops generalizing self pending with
  | nil => simp [run, Session.transcript]
  | cons op ops ih =>
    obtain ⟨⟨inbox, left⟩, calm, -⟩ := conclude_frame P op self.session (settle P op self)
    rw [← call_run P role] at left calm
    have settled : (settle P op self).session = (Session.emit P op self.session).2 ∧
        (settle P op self).id = self.id := by
      by_cases flushes : op.flushes <;> simp [settle, flushes]
    have next : (after ((call P op).run self)).id ≠ .id0 := by simpa [left, settled.2] using role
    rw [run_cons_of_calm P calm, transcript_cons]
    obtain ⟨session, id⟩ := ih next (if op.flushes then [] else pending ++ (Session.emit P op self.session).1)
    simp_all

/-- A garbler with a sink runs any calls as their transcript: its session is the transcript's,
it sends the transcript's batches as its role sends them, its sink holds the unsent blocks, and
each call the evaluator does not answer answers as the transcript says. -/
theorem run_refines (ops : List (Op Fe)) (holds : self.Holds pending) :
    let logical := Session.transcript P ops self.session pending
    (run P ops self).2.session = logical.session ∧ (run P ops self).2.id = self.id ∧
    (run P ops self).2.Holds logical.pending ∧
    (run P ops self).2.network.sent =
      self.network.sent ++ logical.batches.map (sends P self.id) ∧
    (run P ops self).1.length = ops.length ∧
    ∀ (i : Nat) (reply : Reply Inputs), logical.answers[i]? = some (some reply) →
      (run P ops self).1[i]? = some (.ok reply) := by
  refine ⟨(run_session P (ne_id0_of_holds holds) ops pending).1,
    (run_session P (ne_id0_of_holds holds) ops pending).2, ?_⟩
  induction ops generalizing self pending with
  | nil => simpa [run, Session.transcript] using holds
  | cons op ops ih =>
    obtain ⟨⟨inbox, left⟩, -, answered⟩ := conclude_frame P op self.session (settle P op self)
    obtain ⟨session, id, holds', sent⟩ := settle_spec P holds op
    rw [← call_run P (ne_id0_of_holds holds)] at left answered
    have next := holds_withInbox holds' inbox
    rw [← left] at next
    obtain ⟨holds'', sent'', length, replies⟩ := ih next
    rw [run_cons_of_calm P (call_calm P holds op), transcript_cons]
    refine ⟨by simpa [left, session] using holds'', ?_, by simp [length], ?_⟩
    · rw [sent'', left, sent_withInbox, session_withInbox, id_withInbox, sent, id, session]
      split <;> simp
    · rintro (_ | i) reply given
      · cases reads : op.readsBack
        · simp only [reads, Bool.false_eq_true, if_false, List.getElem?_cons_zero,
            Option.some.injEq] at given
          simp [answered reads, outcome, given]
        · simp [reads] at given
      · simpa [left, session] using replies i reply (by simpa [left, session] using given)

end Runs

end Rep3Garbler

end CoSnarks.Model.Yao
