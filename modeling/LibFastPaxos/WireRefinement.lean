import LibFastPaxos.WireSystem
import LibFastPaxos.TotalOrder

/-!
The system of bytes does what the system of packets does. As long as no integer is cut off
in its 32 bits, every datagram in flight spells a packet that was sent, and whoever reads
it back from a buffer handles that packet; and every packet can be handed over so.
-/

namespace LibFastPaxos

open Memory Transition

/-! ### Processes -/

/-- What the process has sent is spelled by its buffers. -/
structure WireProcess.Spelled (cfg : Config) (w : WireProcess) : Prop where
  learner : LearnerSpelled w.process.learner w.learner
  proposer : ∀ s, w.process.proposer = some s → ProposerSpelled s w.proposer
  leader : ∀ l, w.process.leader = some l → LeaderSpelled cfg l w.leader
  noProposer : w.process.proposer = none → w.proposer.sent = []
  noLeader : w.process.leader = none → w.leader.sent = []

section Processes

variable {cfg : Config} {w w' : WireProcess} {buf : UdpBuffer} {d : Datagram} {packet : PaxosMsg}

theorem WireProcess.Spelled.sent (h : w.Spelled cfg) : Spells w.sent w.process.sent := by
  refine List.rel_append h.learner.sent (List.rel_append ?_ ?_)
  · cases hs : w.process.proposer with
    | none =>
        rw [h.noProposer hs]
        exact .nil
    | some s => exact (h.proposer s hs).sent
  · cases hl : w.process.leader with
    | none =>
        rw [h.noLeader hl]
        exact .nil
    | some l => exact (h.leader l hl).sent

theorem deliver_process (w : WireProcess) (call : DeliverCall) :
    (w.deliver call).map WireProcess.process = w.process.deliver call := by
  rw [WireProcess.deliver, Option.map_map]
  exact Option.map_id_apply

theorem WireProcess.Spelled.deliver (h : w.Spelled cfg) {call : DeliverCall}
    (run : w.deliver call = some w') : w'.Spelled cfg := by
  obtain ⟨p, hp, rfl⟩ := Option.map_eq_some_iff.mp run
  simp only [Process.deliver] at hp
  cases hs : w.process.proposer with
  | none =>
      rw [hs] at hp
      obtain rfl := Option.some.inj hp
      exact h
  | some s =>
      rw [hs] at hp
      obtain ⟨t, ht, rfl⟩ := Option.map_eq_some_iff.mp hp
      refine ⟨h.learner, ?_, ?_, ?_, ?_⟩
      · intro u hu
        obtain rfl := Option.some.inj hu
        exact (h.proposer s hs).deliver ht
      · intro l hl
        obtain ⟨l', hl', rfl⟩ := Option.map_eq_some_iff.mp hl
        exact (h.leader l' hl').leaderDeliverValue call.iid
      · intro hnone
        cases hnone
      · intro hnone
        exact h.noLeader (Option.map_eq_none_iff.mp hnone)

theorem WireProcess.Spelled.delivers (h : w.Spelled cfg) {calls : List DeliverCall}
    (run : calls.foldlM WireProcess.deliver w = some w') : w'.Spelled cfg := by
  induction calls generalizing w with
  | nil =>
      obtain rfl := Option.some.inj run
      exact h
  | cons call calls ih =>
      rw [List.foldlM_cons] at run
      obtain ⟨u, hu, rest⟩ := Option.bind_eq_some_iff.mp run
      exact ih (h.deliver hu) rest

/-! ### The learner -/

/-- A learn that a datagram encodes is handled by the learner and what it delivers to. -/
theorem learner_process (w : WireProcess) (buf : UdpBuffer) (h : LearnerEncodes cfg d packet)
    {lmsg : LearnMsg} (learn : packet.data = .learn lmsg) :
    (w.learnerHandleLearnerMsg cfg buf d).map WireProcess.process =
      w.process.handleLearn cfg lmsg := by
  rw [WireProcess.learnerHandleLearnerMsg, learnerHandle_encoded cfg w.process.learner buf h,
    learn, Option.bind_some, foldlM_view deliver_process]
  rfl

/-- Everything else leaves it alone. -/
theorem learner_ignores (w : WireProcess) (buf : UdpBuffer) (h : LearnerEncodes cfg d packet)
    (other : ∀ lmsg, packet.data ≠ .learn lmsg) :
    w.learnerHandleLearnerMsg cfg buf d = some w := by
  have hsame : learnerHandles cfg w.process.learner packet.data = w.process.learner := by
    cases hdata : packet.data with
    | learn lmsg => exact absurd hdata (other lmsg)
    | prepare _ | accept _ | lsync _ | promise _ | anyval _ => rfl
  have hnone : newDeliveries w.process.learner w.process.learner = [] := by
    simp [newDeliveries]
  rw [WireProcess.learnerHandleLearnerMsg, learnerHandle_encoded cfg w.process.learner buf h,
    hsame, Option.bind_some, hnone]
  rfl

theorem WireProcess.Spelled.learnerMsg (h : w.Spelled cfg)
    (encodes : LearnerEncodes cfg d packet)
    (run : w.learnerHandleLearnerMsg cfg buf d = some w') : w'.Spelled cfg := by
  by_cases hlearn : ∃ lmsg, packet.data = .learn lmsg
  · obtain ⟨lmsg, hdata⟩ := hlearn
    rw [WireProcess.learnerHandleLearnerMsg,
      learnerHandle_encoded cfg w.process.learner buf encodes, hdata, Option.bind_some] at run
    refine WireProcess.Spelled.delivers ?_ run
    exact ⟨h.learner.event (.learn lmsg), h.proposer, h.leader, h.noProposer, h.noLeader⟩
  · rw [learner_ignores w buf encodes (not_exists.mp hlearn)] at run
    exact Option.some.inj run ▸ h

/-! ### The leader -/

/-- A batch that a datagram encodes is read back by the leader. -/
theorem readPromiseBatch_encoded (buf : UdpBuffer) (h : d.Encodes packet)
    {batch : PromiseBatchMsg} (promise : packet.data = .promise batch) :
    intAt (buf.receive d) 4 = some paxosPromise ∧
      ¬ (d.bytes.length : Int) < sizeofPaxosMsg + sizeofPromiseBatchMsg ∧
      readPromiseBatch (buf.receive d) sizeofPaxosMsg = some batch := by
  obtain ⟨-, htype, hdata⟩ := h.header buf
  have hfits : PaxosData.Fits (.promise batch) := promise ▸ h.fits
  rw [promise] at htype hdata
  refine ⟨htype, ?_, readPromiseBatch_of_holds hfits hdata⟩
  have hle := h.length_le
  rw [promise, PaxosData.bytes, PromiseBatchMsg.bytes, List.length_append, ints_length] at hle
  simp only [List.length_cons, List.length_nil, sizeofPaxosMsg] at hle
  simp only [sizeofPaxosMsg, sizeofPromiseBatchMsg]
  omega

/-- It is handled unless it ends at `INT_MAX`. -/
theorem leaderHandle_promise (s : LeaderState) (buf : UdpBuffer) (h : LeaderEncodes cfg d packet)
    {batch : PromiseBatchMsg} (promise : packet.data = .promise batch) :
    leaderHandleProposerMsg cfg s buf d =
      if batch.Endless then none else some (leaderHandlePromiseMsg cfg s batch) := by
  obtain ⟨htype, hlong, hread⟩ := readPromiseBatch_encoded buf h.toEncodes promise
  simp only [leaderHandleProposerMsg, htype, Option.bind_some, ne_eq, not_true, if_false, hlong,
    hread, promises_stored (h.index batch promise)]
  rfl

theorem leaderBuffer_promise (stack : Int → UdpBuffer) (s : LeaderState) (b : LeaderBuffer)
    (buf : UdpBuffer) (h : d.Encodes packet) {batch : PromiseBatchMsg}
    (promise : packet.data = .promise batch) :
    LeaderBuffer.leaderHandleProposerMsg cfg stack s b buf d =
      LeaderBuffer.leaderHandlePromiseMsg cfg stack s b batch := by
  obtain ⟨htype, hlong, hread⟩ := readPromiseBatch_encoded buf h promise
  simp only [LeaderBuffer.leaderHandleProposerMsg, htype, Option.bind_eq_bind, Option.bind_some,
    ne_eq, not_true, if_false, hlong, hread, Option.elim_some]

/-- The process after its leader has taken a batch. -/
theorem leader_process (w : WireProcess) (stack : Int → UdpBuffer) (buf : UdpBuffer)
    (h : LeaderEncodes cfg d packet) {batch : PromiseBatchMsg}
    (promise : packet.data = .promise batch) {l : LeaderState}
    (leads : w.process.leader = some l) :
    (w.leaderHandleProposerMsg cfg stack buf d).map WireProcess.process =
      if batch.Endless then none else w.process.receive cfg packet := by
  simp only [WireProcess.leaderHandleProposerMsg, leads, Option.bind_some,
    leaderHandle_promise l buf h promise, Process.receive, promise]
  split
  · rfl
  · rfl

theorem leader_ignores (w : WireProcess) (stack : Int → UdpBuffer) (buf : UdpBuffer)
    (h : LeaderEncodes cfg d packet) (other : ∀ batch, packet.data ≠ .promise batch)
    (run : w.leaderHandleProposerMsg cfg stack buf d = some w') : w' = w := by
  obtain ⟨l, hl, run⟩ := Option.bind_eq_some_iff.mp run
  obtain ⟨t, ht, rfl⟩ := Option.map_eq_some_iff.mp run
  obtain ⟨-, htype, -⟩ := h.header buf
  have htype' : packet.data.type ≠ paxosPromise := by
    cases hdata : packet.data with
    | promise batch => exact absurd hdata (other batch)
    | prepare _ | accept _ | lsync _ | learn _ | anyval _ =>
        simp [PaxosData.type, paxosPrepare, paxosAccept, paxosLsync, paxosPromise, paxosLearn,
          paxosAnyval]
  have hstate : leaderHandleProposerMsg cfg l buf d = some l := by
    simp only [leaderHandleProposerMsg, htype, Option.bind_some, htype', ne_eq, not_false_eq_true,
      if_true]
  have hbuffer : LeaderBuffer.leaderHandleProposerMsg cfg stack l w.leader buf d = w.leader := by
    simp only [LeaderBuffer.leaderHandleProposerMsg, htype, Option.bind_eq_bind,
      Option.bind_some, htype', ne_eq, not_false_eq_true, if_true, Option.elim_none]
  obtain rfl := Option.some.inj (hstate.symm.trans ht)
  rw [hbuffer, ← hl]

theorem WireProcess.Spelled.leaderMsg (h : w.Spelled cfg) {stack : Int → UdpBuffer}
    (encodes : LeaderEncodes cfg d packet) (sized : packet.data.Sized)
    (run : w.leaderHandleProposerMsg cfg stack buf d = some w') : w'.Spelled cfg := by
  by_cases hpromise : ∃ batch, packet.data = .promise batch
  · obtain ⟨batch, hdata⟩ := hpromise
    obtain ⟨l, hl, run⟩ := Option.bind_eq_some_iff.mp run
    obtain ⟨t, ht, rfl⟩ := Option.map_eq_some_iff.mp run
    rw [leaderHandle_promise l buf encodes hdata] at ht
    obtain ⟨-, ht⟩ := Option.ite_none_left_eq_some.mp ht
    obtain rfl := Option.some.inj ht
    rw [hdata] at sized
    refine ⟨h.learner, h.proposer, ?_, h.noProposer, fun hnone => by cases hnone⟩
    intro t ht
    obtain rfl := Option.some.inj ht
    rw [leaderBuffer_promise stack l w.leader buf encodes.toEncodes hdata]
    exact (h.leader l hl).leaderHandlePromiseMsg stack sized.2
  · rw [leader_ignores w stack buf encodes (not_exists.mp hpromise) run]
    exact h

/-! ### Timers and clients -/

theorem WireProcess.Spelled.lsyncCheck (h : w.Spelled cfg) : (w.lsyncCheck cfg).Spelled cfg :=
  ⟨h.learner.event .lsyncTimer, h.proposer, h.leader, h.noProposer, h.noLeader⟩

theorem WireProcess.Spelled.phase1CheckCb (h : w.Spelled cfg)
    (run : w.phase1CheckCb cfg = some w') : w'.Spelled cfg := by
  obtain ⟨l, hl, rfl⟩ := Option.map_eq_some_iff.mp run
  refine ⟨h.learner, h.proposer, ?_, h.noProposer, fun hnone => by cases hnone⟩
  intro t ht
  obtain rfl := Option.some.inj ht
  exact (h.leader l hl).phase1CheckCb

theorem WireProcess.Spelled.phase2CheckCb (h : w.Spelled cfg)
    (run : w.phase2CheckCb cfg = some w') : w'.Spelled cfg := by
  obtain ⟨l, hl, run⟩ := Option.bind_eq_some_iff.mp run
  obtain ⟨t, ht, rfl⟩ := Option.map_eq_some_iff.mp run
  refine ⟨h.learner, h.proposer, ?_, h.noProposer, fun hnone => by cases hnone⟩
  intro u hu
  obtain rfl := Option.some.inj hu
  exact (h.leader l hl).phase2CheckCb ht

theorem WireProcess.Spelled.propose (h : w.Spelled cfg) {event : ProposerEvent}
    (run : w.propose event = some w') : w'.Spelled cfg := by
  obtain ⟨s, hs, run⟩ := Option.bind_eq_some_iff.mp run
  obtain ⟨t, ht, rfl⟩ := Option.map_eq_some_iff.mp run
  refine ⟨h.learner, ?_, h.leader, fun hnone => (by cases hnone), h.noLeader⟩
  intro u hu
  obtain rfl := Option.some.inj hu
  exact (h.proposer s hs).event ht

end Processes

/-! ### The network -/

theorem PaxosData.Sized.ops {data : PaxosData} (h : data.Sized) : ∀ op ∈ data.ops, op.Sized := by
  intro op hop
  cases data with
  | accept amsg =>
      obtain rfl := List.mem_singleton.mp hop
      have hsize := h.1
      exact ⟨show 0 ≤ amsg.valueSize by omega, h.2⟩
  | prepare _ | lsync _ | anyval _ =>
      obtain ⟨_, -, rfl⟩ := List.mem_map.mp hop
      trivial
  | promise _ | learn _ => cases hop

theorem Spells.flatMap {ι : Type} {f : ι → List Bytes} {g : ι → List PaxosMsg}
    (h : ∀ i, Spells (f i) (g i)) (is : List ι) : Spells (is.flatMap f) (is.flatMap g) := by
  induction is with
  | nil => exact .nil
  | cons i is ih =>
      rw [List.flatMap_cons, List.flatMap_cons]
      exact List.rel_append (h i) ih

theorem Spells.mem {wire : List Bytes} {packets : List PaxosMsg} (h : Spells wire packets)
    {bytes : Bytes} {packet : PaxosMsg} (sent : packet ∈ packets)
    (spelled : Spelled bytes packet) : bytes ∈ wire := by
  rw [h.bytes_eq, spelled.bytes_eq]
  exact List.mem_map_of_mem sent

theorem getNextMessage_acceptorId {cfg : Config} {env : DiskEnv} {s t : AcceptorState}
    {buf : UdpBuffer} {d : Datagram} {packet : PaxosMsg} (h : d.Encodes packet)
    (run : getNextMessage cfg env s buf d = some t) : t.acceptorId = s.acceptorId := by
  rw [getNextMessage_encoded cfg env s buf h] at run
  have meets : MessageMeets cfg env (fun _ _ => True) s packet :=
    Meets.of_forall (fun _ _ => trivial) _ _
  refine message_invariant (fun u => u.acceptorId = s.acceptorId) ?_ ?_ ?_
    (P := fun _ => True) (fun _ _ => trivial) rfl meets run
  · exact fun _ h => h
  · exact fun u op v _ h _ move => (handleOp_acceptorId move).trans h
  · exact fun u h _ => by simpa using h

section System

variable {cfg : Config} {D : Deployment cfg} {ω ω' : WireState D} {packet : PaxosMsg}

/-- No integer that was sent is cut off in its 32 bits. -/
structure SystemState.InRange (σ : SystemState D) : Prop where
  toAcceptors : ∀ packet ∈ σ.toAcceptors, packet.data.InRange
  fromAcceptors : ∀ packet ∈ σ.fromAcceptors, packet.data.InRange

instance (σ : SystemState D) : Decidable σ.InRange :=
  decidable_of_iff ((∀ packet ∈ σ.toAcceptors, packet.data.InRange) ∧
    ∀ packet ∈ σ.fromAcceptors, packet.data.InRange) ⟨fun h => ⟨h.1, h.2⟩, fun h => ⟨h.1, h.2⟩⟩

/-- The datagrams of all parties spell their packets. -/
structure WireState.Spelled (ω : WireState D) : Prop where
  acceptors : ∀ a, AcceptorSpelled (ω.acceptors a).state (ω.acceptors a).buffer
  ids : ∀ a, (ω.acceptors a).state.acceptorId = (a : Nat)
  processes : ∀ i, (ω.processes i).Spelled cfg

theorem WireState.Spelled.toAcceptors (h : ω.Spelled) :
    Spells ω.toAcceptors ω.system.toAcceptors :=
  .flatMap (fun i => (h.processes i).sent) _

theorem WireState.Spelled.fromAcceptors (h : ω.Spelled) :
    Spells ω.fromAcceptors ω.system.fromAcceptors :=
  .flatMap (fun a => (h.acceptors a).sent) _

/-- What comes from the acceptors names one of them. -/
theorem WireState.Spelled.isFrom (h : ω.Spelled) (sent : packet ∈ ω.system.fromAcceptors) :
    ∃ a : Fin cfg.nOfAcceptors, packet.data.IsFrom (a : Nat) := by
  obtain ⟨a, -, hmem⟩ := List.mem_flatMap.mp sent
  exact ⟨a, h.ids a ▸ (h.acceptors a).own packet hmem⟩

theorem isAcceptor_of_fin (a : Fin cfg.nOfAcceptors) : cfg.IsAcceptor (a : Nat) :=
  ⟨Int.natCast_nonneg _, Int.ofNat_lt.mpr a.isLt⟩

variable {d : Datagram}

theorem WireState.Spelled.learnerEncodes (h : ω.Spelled) (range : ω.system.InRange)
    (sent : packet ∈ ω.system.fromAcceptors) (spelled : LibFastPaxos.Spelled d.bytes packet) :
    LearnerEncodes cfg d packet where
  toEncodes := spelled.encodes (range.fromAcceptors packet sent) rfl
  index := by
    intro lmsg hlearn
    obtain ⟨a, ha⟩ := h.isFrom sent
    rw [hlearn] at ha
    have ha : lmsg.acceptorId = (a : Nat) := ha
    rw [ha]
    exact isAcceptor_of_fin a

theorem WireState.Spelled.leaderEncodes (h : ω.Spelled) (range : ω.system.InRange)
    (sent : packet ∈ ω.system.fromAcceptors) (spelled : LibFastPaxos.Spelled d.bytes packet) :
    LeaderEncodes cfg d packet where
  toEncodes := spelled.encodes (range.fromAcceptors packet sent) rfl
  index := by
    intro batch hpromise
    obtain ⟨a, ha⟩ := h.isFrom sent
    rw [hpromise] at ha
    have ha : batch.acceptorId = (a : Nat) := ha
    rw [ha]
    exact isAcceptor_of_fin a

/-! ### Steps -/

/-- The step that a step over the wire stands for. -/
inductive Stands (ω : WireState D) : WireAction D → Action D → Prop where
  | acceptor {a : Fin cfg.nOfAcceptors} {buf : UdpBuffer} {d : Datagram} {packet : PaxosMsg}
      (sent : packet ∈ ω.system.toAcceptors) (spelled : Spelled d.bytes packet) :
      Stands ω (.acceptor a buf d) (.acceptor a packet)
  | learner {i : Fin D.processes} {buf : UdpBuffer} {d : Datagram} {packet : PaxosMsg}
      {lmsg : LearnMsg} (sent : packet ∈ ω.system.fromAcceptors)
      (spelled : Spelled d.bytes packet) (learn : packet.data = .learn lmsg) :
      Stands ω (.learner i buf d) (.receive i packet)
  | leader {i : Fin D.processes} {stack : Int → UdpBuffer} {buf : UdpBuffer} {d : Datagram}
      {packet : PaxosMsg} {batch : PromiseBatchMsg} {l : LeaderState}
      (sent : packet ∈ ω.system.fromAcceptors) (spelled : Spelled d.bytes packet)
      (promise : packet.data = .promise batch) (ends : ¬ batch.Endless)
      (leads : (ω.processes i).process.leader = some l) :
      Stands ω (.leader i stack buf d) (.receive i packet)
  | lsyncTimer (i : Fin D.processes) : Stands ω (.lsyncTimer i) (.lsyncTimer i)
  | phase1Timer (i : Fin D.processes) : Stands ω (.phase1Timer i) (.phase1Timer i)
  | phase2Timer (i : Fin D.processes) : Stands ω (.phase2Timer i) (.phase2Timer i)
  | timeout (i : Fin D.processes) (ti : TimeoutInfo) : Stands ω (.timeout i ti) (.timeout i ti)
  | submit (i : Fin D.processes) (value : Bytes) : Stands ω (.submit i value) (.submit i value)

theorem system_setAcceptor (ω : WireState D) (a : Fin cfg.nOfAcceptors) (w : WireAcceptor) :
    (ω.setAcceptor a w).system = ω.system.setAcceptor a w.state := by
  simp only [WireState.system, WireState.setAcceptor, SystemState.setAcceptor]
  congr 1
  funext j
  exact Function.apply_update (fun _ => WireAcceptor.state) ω.acceptors a w j

theorem system_setProcess (ω : WireState D) (i : Fin D.processes) (w : WireProcess) :
    (ω.setProcess i w).system = ω.system.setProcess i w.process := by
  simp only [WireState.system, WireState.setProcess, SystemState.setProcess]
  congr 1
  funext j
  exact Function.apply_update (fun _ => WireProcess.process) ω.processes i w j

theorem map_setProcess (ω : WireState D) (i : Fin D.processes) (o : Option WireProcess) :
    (o.map (ω.setProcess i)).map WireState.system =
      (o.map WireProcess.process).map (ω.system.setProcess i) := by
  cases o with
  | none => rfl
  | some w => exact congrArg some (system_setProcess ω i w)

/-- Seen without the buffers, a step over the wire is the step that it stands for. -/
theorem Stands.moves {wa : WireAction D} {a : Action D} (stands : Stands ω wa a) (h : ω.Spelled)
    (range : ω.system.InRange) : (wireAct ω wa).map WireState.system = act ω.system a := by
  cases stands with
  | @acceptor a buf d packet sent spelled =>
      have hmem := h.toAcceptors.mem sent spelled
      have henc : d.Encodes packet := spelled.encodes (range.toAcceptors packet sent) rfl
      simp only [wireAct, act, if_pos hmem, if_pos sent, Option.map_map,
        getNextMessage_encoded cfg (D.disk a) _ buf henc]
      refine congrArg (fun f => Option.map f _) (funext fun t => ?_)
      exact system_setAcceptor ω a _
  | @learner i buf d packet lmsg sent spelled learn =>
      have hmem := h.fromAcceptors.mem sent spelled
      have henc := h.learnerEncodes range sent spelled
      simp only [wireAct, act, if_pos hmem, if_pos sent]
      rw [map_setProcess, learner_process _ buf henc learn]
      simp only [Process.receive, learn]
      rfl
  | @leader i stack buf d packet batch l sent spelled promise ends leads =>
      have hmem := h.fromAcceptors.mem sent spelled
      have henc := h.leaderEncodes range sent spelled
      simp only [wireAct, act, if_pos hmem, if_pos sent]
      rw [map_setProcess, leader_process _ stack buf henc promise leads, if_neg ends]
      rfl
  | lsyncTimer i => exact congrArg some (system_setProcess ω i _)
  | phase1Timer i =>
      simp only [wireAct, act]
      rw [map_setProcess, WireProcess.phase1CheckCb, Option.map_map, Option.map_map]
      rfl
  | phase2Timer i =>
      simp only [wireAct, act, map_setProcess, WireProcess.phase2CheckCb]
      cases hl : (ω.processes i).process.leader with
      | none => simp [WireState.system, hl]
      | some l =>
          simp only [WireState.system, hl, Option.bind_some, Option.map_map]
          rfl
  | timeout i ti =>
      simp only [wireAct, act, map_setProcess, WireProcess.propose]
      cases hs : (ω.processes i).process.proposer with
      | none => simp [WireState.system, hs]
      | some s =>
          simp only [WireState.system, hs, Option.bind_some, proposerStep]
          split
          · rfl
          · rfl
  | submit i value =>
      simp only [wireAct, act, map_setProcess, WireProcess.propose]
      cases hs : (ω.processes i).process.proposer with
      | none => simp [WireState.system, hs]
      | some s =>
          simp only [WireState.system, hs, Option.bind_some, proposerStep]
          split
          · rfl
          · rfl

theorem WireState.Spelled.setProcess (h : ω.Spelled) {i : Fin D.processes} {w : WireProcess}
    (spelled : w.Spelled cfg) : (ω.setProcess i w).Spelled := by
  refine ⟨h.acceptors, h.ids, fun j => ?_⟩
  by_cases hj : j = i
  · subst hj
    simpa [WireState.setProcess] using spelled
  · have hsame : (ω.setProcess i w).processes j = ω.processes j := Function.update_of_ne hj _ _
    rw [hsame]
    exact h.processes j

theorem WireState.Spelled.setAcceptor (h : ω.Spelled) {a : Fin cfg.nOfAcceptors}
    {w : WireAcceptor} (spelled : AcceptorSpelled w.state w.buffer)
    (id : w.state.acceptorId = (a : Nat)) : (ω.setAcceptor a w).Spelled := by
  have hcase : ∀ j, AcceptorSpelled ((ω.setAcceptor a w).acceptors j).state
      ((ω.setAcceptor a w).acceptors j).buffer ∧
        ((ω.setAcceptor a w).acceptors j).state.acceptorId = (j : Nat) := by
    intro j
    by_cases hj : j = a
    · subst hj
      simpa [WireState.setAcceptor] using ⟨spelled, id⟩
    · have hsame : (ω.setAcceptor a w).acceptors j = ω.acceptors j :=
        Function.update_of_ne hj _ _
      rw [hsame]
      exact ⟨h.acceptors j, h.ids j⟩
  exact ⟨fun j => (hcase j).1, fun j => (hcase j).2, h.processes⟩

/-- Every step leaves datagrams that spell the packets. -/
theorem WireState.Spelled.act (h : ω.Spelled) (range : ω.system.InRange) {wa : WireAction D}
    (move : wireAct ω wa = some ω') : ω'.Spelled := by
  cases wa with
  | acceptor a buf d =>
      obtain ⟨hmem, run⟩ := Option.ite_none_right_eq_some.mp move
      obtain ⟨t, ht, rfl⟩ := Option.map_eq_some_iff.mp run
      obtain ⟨packet, hsent, hspelled⟩ := h.toAcceptors.spelled hmem
      have henc : d.Encodes packet := hspelled.encodes (range.toAcceptors packet hsent) rfl
      have hvalues := valuesInRange_encoded henc hspelled.sized.ops buf
      exact h.setAcceptor ((h.acceptors a).datagram hvalues ht)
        ((getNextMessage_acceptorId henc ht).trans (h.ids a))
  | learner i buf d =>
      obtain ⟨hmem, run⟩ := Option.ite_none_right_eq_some.mp move
      obtain ⟨w, hw, rfl⟩ := Option.map_eq_some_iff.mp run
      obtain ⟨packet, hsent, hspelled⟩ := h.fromAcceptors.spelled hmem
      exact h.setProcess ((h.processes i).learnerMsg (h.learnerEncodes range hsent hspelled) hw)
  | leader i stack buf d =>
      obtain ⟨hmem, run⟩ := Option.ite_none_right_eq_some.mp move
      obtain ⟨w, hw, rfl⟩ := Option.map_eq_some_iff.mp run
      obtain ⟨packet, hsent, hspelled⟩ := h.fromAcceptors.spelled hmem
      exact h.setProcess
        ((h.processes i).leaderMsg (h.leaderEncodes range hsent hspelled) hspelled.sized hw)
  | lsyncTimer i =>
      obtain rfl := Option.some.inj move
      exact h.setProcess (h.processes i).lsyncCheck
  | phase1Timer i =>
      obtain ⟨w, hw, rfl⟩ := Option.map_eq_some_iff.mp move
      exact h.setProcess ((h.processes i).phase1CheckCb hw)
  | phase2Timer i =>
      obtain ⟨w, hw, rfl⟩ := Option.map_eq_some_iff.mp move
      exact h.setProcess ((h.processes i).phase2CheckCb hw)
  | timeout i ti | submit i value =>
      obtain ⟨w, hw, rfl⟩ := Option.map_eq_some_iff.mp move
      exact h.setProcess ((h.processes i).propose hw)

theorem setProcess_self (ω : WireState D) (i : Fin D.processes) :
    ω.setProcess i (ω.processes i) = ω := by
  simp [WireState.setProcess]

/-- A step over the wire stands for a step, or a datagram is handed to who ignores it. -/
theorem stands_or_ignored (h : ω.Spelled) (range : ω.system.InRange) {wa : WireAction D}
    (move : wireAct ω wa = some ω') : (∃ a, Stands ω wa a) ∨ ω' = ω := by
  cases wa with
  | acceptor a buf d =>
      obtain ⟨hmem, -⟩ := Option.ite_none_right_eq_some.mp move
      obtain ⟨packet, hsent, hspelled⟩ := h.toAcceptors.spelled hmem
      exact .inl ⟨_, .acceptor hsent hspelled⟩
  | learner i buf d =>
      obtain ⟨hmem, run⟩ := Option.ite_none_right_eq_some.mp move
      obtain ⟨w, hw, rfl⟩ := Option.map_eq_some_iff.mp run
      obtain ⟨packet, hsent, hspelled⟩ := h.fromAcceptors.spelled hmem
      by_cases hlearn : ∃ lmsg, packet.data = .learn lmsg
      · obtain ⟨lmsg, hdata⟩ := hlearn
        exact .inl ⟨_, .learner hsent hspelled hdata⟩
      · have henc := h.learnerEncodes range hsent hspelled
        rw [learner_ignores _ buf henc (not_exists.mp hlearn)] at hw
        obtain rfl := Option.some.inj hw
        exact .inr (setProcess_self ω i)
  | leader i stack buf d =>
      obtain ⟨hmem, run⟩ := Option.ite_none_right_eq_some.mp move
      obtain ⟨w, hw, rfl⟩ := Option.map_eq_some_iff.mp run
      obtain ⟨packet, hsent, hspelled⟩ := h.fromAcceptors.spelled hmem
      have henc := h.leaderEncodes range hsent hspelled
      by_cases hpromise : ∃ batch, packet.data = .promise batch
      · obtain ⟨batch, hdata⟩ := hpromise
        obtain ⟨l, hl, hrun⟩ := Option.bind_eq_some_iff.mp hw
        obtain ⟨t, ht, -⟩ := Option.map_eq_some_iff.mp hrun
        rw [leaderHandle_promise l buf henc hdata] at ht
        obtain ⟨ends, -⟩ := Option.ite_none_left_eq_some.mp ht
        exact .inl ⟨_, .leader hsent hspelled hdata ends hl⟩
      · obtain rfl := leader_ignores _ stack buf henc (not_exists.mp hpromise) hw
        exact .inr (setProcess_self ω i)
  | lsyncTimer i => exact .inl ⟨_, .lsyncTimer i⟩
  | phase1Timer i => exact .inl ⟨_, .phase1Timer i⟩
  | phase2Timer i => exact .inl ⟨_, .phase2Timer i⟩
  | timeout i ti => exact .inl ⟨_, .timeout i ti⟩
  | submit i value => exact .inl ⟨_, .submit i value⟩

theorem Spells.spells {wire : List Bytes} {packets : List PaxosMsg} (h : Spells wire packets)
    (sent : packet ∈ packets) : ∃ bytes, LibFastPaxos.Spelled bytes packet := by
  induction h with
  | nil => cases sent
  | cons first _ ih =>
      cases List.mem_cons.mp sent with
      | inl heq => exact ⟨_, heq ▸ first⟩
      | inr rest => exact ih rest

/-- No batch of promises ends at `INT_MAX`. -/
def Action.Ends : Action D → Prop
  | .receive _ msg => ∀ batch, msg.data = .promise batch → ¬ batch.Endless
  | .acceptor _ _ | .lsyncTimer _ | .phase1Timer _ | .phase2Timer _ | .timeout _ _
  | .submit _ _ => True

instance (a : Action D) : Decidable a.Ends := by
  cases a <;> simp only [Action.Ends] <;> infer_instance

/-- A step is one over the wire, or a promise is handed to a process that does not lead. -/
theorem stands_or_idle (h : ω.Spelled) {a : Action D} {τ : SystemState D}
    (move : LibFastPaxos.act ω.system a = some τ) (ends : a.Ends) :
    (∃ wa, Stands ω wa a) ∨ τ = ω.system := by
  cases a with
  | acceptor a msg =>
      obtain ⟨hsent, -⟩ := Option.ite_none_right_eq_some.mp move
      obtain ⟨bytes, hspelled⟩ := h.toAcceptors.spells hsent
      exact .inl ⟨.acceptor a zeroBuffer hspelled.datagram, .acceptor hsent hspelled⟩
  | receive i msg =>
      obtain ⟨hsent, run⟩ := Option.ite_none_right_eq_some.mp move
      obtain ⟨p, hp, rfl⟩ := Option.map_eq_some_iff.mp run
      obtain ⟨bytes, hspelled⟩ := h.fromAcceptors.spells hsent
      have hidle : ω.system.setProcess i (ω.system.processes i) = ω.system := by
        simp [SystemState.setProcess]
      cases hdata : msg.data with
      | learn lmsg =>
          exact .inl ⟨.learner i zeroBuffer hspelled.datagram, .learner hsent hspelled hdata⟩
      | promise batch =>
          cases hl : (ω.processes i).process.leader with
          | none =>
              have hsame : ω.system.processes i = p := by
                have hl' : (ω.system.processes i).leader = none := hl
                simp only [Process.receive, hdata, hl', Option.map_none, Option.some.injEq] at hp
                rw [← hp, ← hl']
              exact .inr (hsame ▸ hidle)
          | some l =>
              exact .inl ⟨.leader i (fun _ => zeroBuffer) zeroBuffer hspelled.datagram,
                .leader hsent hspelled hdata (ends batch hdata) hl⟩
      | prepare _ | accept _ | lsync _ | anyval _ =>
          simp only [Process.receive, hdata, Option.some.injEq] at hp
          exact .inr (hp ▸ hidle)
  | lsyncTimer i => exact .inl ⟨_, .lsyncTimer i⟩
  | phase1Timer i => exact .inl ⟨_, .phase1Timer i⟩
  | phase2Timer i => exact .inl ⟨_, .phase2Timer i⟩
  | timeout i ti => exact .inl ⟨_, .timeout i ti⟩
  | submit i value => exact .inl ⟨_, .submit i value⟩

/-! ### Runs -/

variable {allowed : SystemState D → Action D → Prop}

/-- What was sent is in range, and the step can stand for one that is allowed. -/
structure WireGuard (allowed : SystemState D → Action D → Prop) (ω : WireState D)
    (wa : WireAction D) : Prop where
  range : ω.system.InRange
  allowed : ∀ a, Stands ω wa a → ∃ a', Stands ω wa a' ∧ allowed ω.system a'

/-- An allowed step that the wire can carry. -/
structure Carried (allowed : SystemState D → Action D → Prop) (σ : SystemState D)
    (a : Action D) : Prop where
  range : σ.InRange
  allowed : allowed σ a
  ends : a.Ends

theorem role_leader (cfg : Config) (role : Role) :
    (role.start cfg).leader = role.leaderId?.map (leaderInit cfg) := by
  cases role with
  | learner => rfl
  | proposer propId isLeader | proposerAndDeliver propId isLeader f =>
      cases isLeader with
      | true => rfl
      | false => rfl

theorem wireStart_process_spelled (D : Deployment cfg) (mem : UdpBuffer) (i : Fin D.processes) :
    ((D.role i).wireStart cfg mem).Spelled cfg := by
  have hleader := role_leader cfg (D.role i)
  refine ⟨⟨mem.length_eq, ?_⟩, ?_, ?_, fun _ => rfl, ?_⟩
  · have hlearner : ((D.role i).start cfg).learner = learnerStart := by
      cases D.role i with
      | learner | proposer _ _ | proposerAndDeliver _ _ _ => rfl
    have hsent : ((D.role i).start cfg).learner.sent = [] := by
      rw [hlearner]
      rfl
    exact hsent ▸ .nil
  · exact fun s hs => start_proposer_spelled hs mem 0
  · intro l hl
    have hl : ((D.role i).start cfg).leader = some l := hl
    rw [hleader] at hl
    obtain ⟨id, hid, rfl⟩ := Option.map_eq_some_iff.mp hl
    obtain ⟨-, hinstalled⟩ := Option.ite_none_right_eq_some.mp hid
    obtain ⟨nonneg, lt⟩ := D.installed_range i id hinstalled
    simp only [Role.wireStart, hid, Option.elim_some]
    exact leaderInit_spelled nonneg lt mem
  · intro hnone
    have hnone : ((D.role i).start cfg).leader = none := hnone
    rw [hleader, Option.map_eq_none_iff] at hnone
    simp only [Role.wireStart, hnone, Option.elim_none]

theorem wireStart_spelled (D : Deployment cfg) (ids : (cfg.nOfAcceptors : Int) ≤ 2147483648)
    (mem : UdpBuffer) : (wireStart D mem).Spelled where
  acceptors := by
    intro a
    have hlt := a.isLt
    exact acceptorStart_spelled ⟨by omega, by omega⟩ mem
  ids := fun _ => rfl
  processes := wireStart_process_spelled D mem

theorem wire_refinement (D : Deployment cfg) (ids : (cfg.nOfAcceptors : Int) ≤ 2147483648)
    (allowed : SystemState D → Action D → Prop) :
    RefinementMap (wireSystem D) (WireGuard allowed) (system D) allowed WireState.system := by
  refine .of_invariant WireState.Spelled ?_ ?_
  · intro ω ⟨mem, hω⟩
    exact hω ▸ ⟨wireStart_spelled D ids mem, rfl⟩
  · intro ω wa ω' h ok move
    refine ⟨h.act ok.range move, ?_⟩
    cases stands_or_ignored h ok.range move with
    | inl stands =>
        obtain ⟨a, ha⟩ := stands
        obtain ⟨a', hstands, hallowed⟩ := ok.allowed a ha
        have hmoves := hstands.moves h ok.range
        have move : wireAct ω wa = some ω' := move
        rw [move] at hmoves
        exact .inr ⟨a', hallowed, hmoves.symm⟩
    | inr same => exact .inl (congrArg WireState.system same)

theorem wire_realises (ids : (cfg.nOfAcceptors : Int) ≤ 2147483648) {σ : SystemState D}
    (reach : Reachable (system D) (Carried allowed) σ) :
    ∃ ω, Reachable (wireSystem D) (WireGuard allowed) ω ∧ ω.Spelled ∧ ω.system = σ := by
  refine reachable_of_realised WireState.Spelled ?_ ?_ reach
  · intro σ hσ
    exact ⟨wireStart D zeroBuffer, ⟨zeroBuffer, rfl⟩, wireStart_spelled D ids zeroBuffer, hσ.symm⟩
  · intro ω a τ h ok move
    cases stands_or_idle h move ok.ends with
    | inl stands =>
        obtain ⟨wa, hstands⟩ := stands
        have hmoves := hstands.moves h ok.range
        have move : LibFastPaxos.act ω.system a = some τ := move
        rw [move] at hmoves
        obtain ⟨ω', hact, hview⟩ := Option.map_eq_some_iff.mp hmoves
        exact ⟨ω', h.act ok.range hact, hview,
          .single ⟨wa, ⟨ok.range, fun _ _ => ⟨a, hstands, ok.allowed⟩⟩, hact⟩⟩
    | inr idle => exact ⟨ω, h, idle.symm, .refl⟩

/-- Seen without the buffers, a run over the wire is a run of the system, and every run whose
packets the wire can carry is one. -/
theorem wire_refines_system (D : Deployment cfg) (ids : (cfg.nOfAcceptors : Int) ≤ 2147483648)
    (allowed : SystemState D → Action D → Prop) :
    RefinementMap (wireSystem D) (WireGuard allowed) (system D) allowed WireState.system ∧
      ∀ σ, Reachable (system D) (Carried allowed) σ →
        ∃ ω, Reachable (wireSystem D) (WireGuard allowed) ω ∧ ω.system = σ := by
  refine ⟨wire_refinement D ids allowed, fun σ reach => ?_⟩
  obtain ⟨ω, hω, -, hview⟩ := wire_realises ids reach
  exact ⟨ω, hω, hview⟩

/-- The bytes that the parties exchange make a total order broadcast. -/
theorem wire_broadcasts (puts : ∀ a, (D.disk a).PutsSucceed) (distinct : D.IdsDistinct)
    (ids : (cfg.nOfAcceptors : Int) ≤ 2147483648) :
    RefinementMap (wireSystem D) (WireGuard (Agrees False AcceptMsg.value))
        (Broadcast.broadcast (Fin D.processes) Bytes) anyStep
        (SystemState.broadcast ∘ WireState.system) ∧
      ∀ ω, Reachable (wireSystem D) (WireGuard (Agrees False AcceptMsg.value)) ω →
        ∀ i, ω.system.broadcast.output i = (ω.processes i).process.values := by
  have hwire := wire_refinement D ids (Agrees False AcceptMsg.value)
  refine ⟨hwire.trans (broadcast_refinement puts distinct), fun ω reach i => ?_⟩
  exact broadcast_output puts distinct (hwire.reachable reach) i

end System

/-! ### The fast round over the wire -/

theorem fastRun_carried :
    Meets act (Carried (Agrees False AcceptMsg.value)) (systemStart narrowFive) fastRun := by
  have hchecked : Meets act (fun σ action => (AcceptorsMeet (VotesKept False narrow) σ action ∧
      NoOverflow σ action) ∧ σ.InRange ∧ action.Ends) (systemStart narrowFive) fastRun := by
    decide +kernel
  refine hchecked.mono fun σ action h => ⟨h.2.1, ⟨h.1.1, h.1.2, ?_⟩, h.2.2⟩
  exact unrivalled_of_three (by decide) _ σ action

/-- Learner 3 delivers what client 1 submitted. -/
theorem fastRun_delivers :
    ∃ σ, Reachable (system narrowFive) (Carried (Agrees False AcceptMsg.value)) σ ∧
      (σ.processes (3 : Fin 5)).values = [[7]] := by
  have hrun : ∃ σ, fastRun.foldlM act (systemStart narrowFive) = some σ ∧
      (σ.processes (3 : Fin 5)).values = [[7]] := by
    decide +kernel
  obtain ⟨σ, run, delivered⟩ := hrun
  exact ⟨σ, Reachable.run (fun _ _ _ move => move) (.init rfl) fastRun_carried run, delivered⟩

theorem wire_refines_system_fastRun :
    ∃ ω, Reachable (wireSystem narrowFive) (WireGuard (Agrees False AcceptMsg.value)) ω ∧
      (ω.processes (3 : Fin 5)).process.values = [[7]] := by
  obtain ⟨σ, reach, delivered⟩ := fastRun_delivers
  obtain ⟨-, hrealises⟩ :=
    wire_refines_system narrowFive (by decide) (Agrees False AcceptMsg.value)
  obtain ⟨ω, hω, rfl⟩ := hrealises σ reach
  exact ⟨ω, hω, delivered⟩

theorem wire_broadcasts_fastRun :
    ∃ ω, Reachable (wireSystem narrowFive) (WireGuard (Agrees False AcceptMsg.value)) ω ∧
      Reachable (Broadcast.broadcast (Fin 5) Bytes) anyStep ω.system.broadcast ∧
      ω.system.broadcast.output (3 : Fin 5) = [[7]] := by
  obtain ⟨σ, reach, delivered⟩ := fastRun_delivers
  have hids : (narrow.nOfAcceptors : Int) ≤ 2147483648 := by decide
  obtain ⟨ω, hω, -, rfl⟩ := wire_realises hids reach
  obtain ⟨hrefines, houtput⟩ := wire_broadcasts (fun _ => quietDisk_putsSucceed)
    (fiveProcesses_idsDistinct narrow (by decide)) hids
  exact ⟨ω, hω, hrefines.reachable hω, (houtput ω hω (3 : Fin 5)).trans delivered⟩

end LibFastPaxos
