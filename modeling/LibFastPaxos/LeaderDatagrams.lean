import LibFastPaxos.LeaderBuffer
import LibFastPaxos.LeaderIssues
import LibFastPaxos.PromiseRoundTrip
import LibFastPaxos.Lib.Refinement

/-!
The handlers of the leader on `leader_send_buffer`, beside the state that they run in, and
the datagrams of its runs: each of them spells the packet that the handlers of the state
send, whatever the buffer and the stack hold at the start.
-/

namespace LibFastPaxos

open Memory Transition

namespace LeaderBuffer

variable (cfg : Config)

def openInstance (s : LeaderState) (b : LeaderBuffer) (i : Int) : LeaderBuffer :=
  let r := s.slot cfg i
  if r.iid < i ∨ r.status = .p1New then b.addPrepare i (cfg.firstBallot s.proposerId) else b

def executePhase1 (s : LeaderState) (b : LeaderBuffer) : LeaderBuffer :=
  let start := s.p1info.highestReady + 1
  let b : LeaderBuffer := ((idsFromTo start (start + cfg.proposerPreexecWinSize)).foldl
    (sideBySide (LibFastPaxos.openInstance cfg) (openInstance cfg)) (s, b)).2
  if b.batchCount > 0 then b.flush else b

def retryInstance (s : LeaderState) (b : LeaderBuffer) (i : Int) : LeaderBuffer :=
  let r := s.slot cfg i
  if r.iid = i ∧ r.status = .p1Pending then b.addPrepare r.iid (cfg.ballotNext r.ballot) else b

def phase1CheckCb (s : LeaderState) (b : LeaderBuffer) : LeaderBuffer :=
  let p := (idsFromTo s.p1info.firstToCheck s.p1info.lastToCheck).foldl
    (sideBySide (LibFastPaxos.retryInstance cfg) (retryInstance cfg))
    (s.initPrepares, b.initPrepares)
  let b : LeaderBuffer :=
    if p.1.p1info.pendingCount + p.1.p1info.readyCount < cfg.proposerPreexecWinSize / 2 then
      executePhase1 cfg p.1 p.2
    else p.2
  if b.batchCount > 0 then b.flush else b

/-- The buffer that `send_accept` fills, over what the stack holds. -/
def acceptBuffer (stack : UdpBuffer) (m : AcceptMsg) : Sender :=
  let buffer : Sender := { bytes := stack.bytes, sent := [] }
  let buffer := (((buffer.set 8 m.iid).set 12 m.ballot).set 16 m.valueSize).set 20 m.proposerId
  let buffer := buffer.copy 24 m.value
  (buffer.set 0 (sizeofAcceptMsg + m.valueSize)).set 4 paxosAccept

/-- `send_accept`. -/
def sendAccept (stack : UdpBuffer) (b : LeaderBuffer) (m : AcceptMsg) : LeaderBuffer :=
  let buffer : Sender := { acceptBuffer stack m with sent := b.sent }
  { b with sent := (buffer.send (sizeofPaxosMsg + buffer.get 0)).sent }

def phase2Instance (stack : Int → UdpBuffer) (s : LeaderState) (b : LeaderBuffer) (i : Int) :
    LeaderBuffer :=
  let r := s.slot cfg i
  if r.status ≠ .p1Ready then b
  else
    match phase2Value cfg r with
    | none => (b.raiseBallot r.ballot).appendId i
    | some pi => b.sendAccept (stack i) (acceptOf cfg r pi)

def executePhase2 (stack : Int → UdpBuffer) (s : LeaderState) (b : LeaderBuffer)
    (firstIid lastIid : Int) : LeaderBuffer :=
  let b : LeaderBuffer := ((idsFromTo firstIid lastIid).foldl
    (sideBySide (LibFastPaxos.phase2Instance cfg) (phase2Instance cfg stack))
    (s.initAnymsg, b.initAnymsg)).2
  if b.anyCount > 0 then b.flush else b

def leaderHandlePromiseMsg (stack : Int → UdpBuffer) (s : LeaderState) (b : LeaderBuffer)
    (batch : PromiseBatchMsg) : LeaderBuffer :=
  let proms := batch.data.take batch.count.toNat
  executePhase2 cfg stack (storePromises cfg s batch) b
    ((proms.head?.map PromiseMsg.iid).getD (-1)) ((proms.getLast?.map PromiseMsg.iid).getD (-1))

def phase2CheckCb (s : LeaderState) (b : LeaderBuffer) : LeaderBuffer :=
  if s.currentIid = s.p2CurrentIid then
    let r := s.slot cfg s.currentIid
    (b.initPrepares.addPrepare r.iid (cfg.ballotNext r.ballot)).flush
  else b

def leaderInit (propId : Int) (b : LeaderBuffer) : LeaderBuffer :=
  executePhase1 cfg (startOf propId).initPrepares b.initPrepares
where
  startOf (propId : Int) : LeaderState :=
    { leaderStatics with
      proposerId := propId
      p1info :=
        { pendingCount := 0, readyCount := 0, highestReady := -1, firstToCheck := 0
          lastToCheck := 0 }
      p2CurrentIid := leaderStatics.currentIid }

end LeaderBuffer

/-! ### Records -/

/-- The promise holds a value of its size. -/
structure PromiseInfo.Sized (info : PromiseInfo) : Prop where
  size_eq : info.valueSize = (info.value.getD []).length
  size_le : info.valueSize ≤ paxosMaxValueSize

structure ProposerRecord.Sendable (r : ProposerRecord) : Prop where
  ballot : FitsInt32 r.ballot
  promises : ∀ j, (r.promises j).Sized

/-- What the leader can send of its records fits into a packet. -/
structure LeaderRecords (cfg : Config) (s : LeaderState) : Prop where
  id_nonneg : 0 ≤ s.proposerId
  id_lt : s.proposerId < cfg.maxProposers
  records : ∀ k, (s.proposerArray k).Sendable

section Records

variable {cfg : Config} {s t : LeaderState}

theorem clearedPromise_sized : clearedPromise.Sized := ⟨rfl, show (0 : Int) ≤ 8960 by decide⟩

theorem ballotNext_fits32 (cfg : Config) (ballot : Int) : FitsInt32 (cfg.ballotNext ballot) :=
  bmod_fits _

theorem LeaderRecords.firstBallot_fits (h : LeaderRecords cfg s) :
    FitsInt32 (cfg.firstBallot s.proposerId) := by
  have hnonneg := h.id_nonneg
  have hlt := h.id_lt
  have hfits := cfg.maxProposers_fits
  simp only [Config.firstBallot]
  exact ⟨by omega, by omega⟩

theorem LeaderRecords.congr (h : LeaderRecords cfg s) (id : t.proposerId = s.proposerId)
    (array : t.proposerArray = s.proposerArray) : LeaderRecords cfg t := by
  refine ⟨?_, ?_, ?_⟩
  · rw [id]
    exact h.id_nonneg
  · rw [id]
    exact h.id_lt
  · rw [array]
    exact h.records

theorem LeaderRecords.setSlot (h : LeaderRecords cfg s) (i : Int) {r : ProposerRecord}
    (hr : r.Sendable) : LeaderRecords cfg (s.setSlot cfg i r) := by
  refine ⟨h.id_nonneg, h.id_lt, fun k => ?_⟩
  rw [proposerArray_setSlot]
  split
  · exact hr
  · exact h.records k

theorem ProposerRecord.Sendable.cleared {r : ProposerRecord} (ballot : FitsInt32 r.ballot) :
    r.clearPromises.Sendable :=
  ⟨ballot, fun _ => clearedPromise_sized⟩

/-- A promise with a value of its size is stored with it. -/
theorem ProposerRecord.Sendable.store {r : ProposerRecord} (h : r.Sendable) {prom : PromiseMsg}
    (size_eq : prom.valueSize = prom.value.length)
    (size_le : prom.valueSize ≤ paxosMaxValueSize) (acceptorId : Int) :
    (r.store prom acceptorId).Sendable := by
  refine ⟨h.ballot, fun j => ?_⟩
  simp only [ProposerRecord.store, Function.update_apply]
  split
  · have hold := h.promises acceptorId.toNat
    simp only [PromiseInfo.store]
    split
    · refine ⟨?_, size_le⟩
      rw [Option.getD_some, memcpy_of_length size_eq]
      exact size_eq
    · exact ⟨hold.size_eq, hold.size_le⟩
  · exact h.promises j

theorem LeaderRecords.handlePromise (h : LeaderRecords cfg s) {prom : PromiseMsg}
    (size_eq : prom.valueSize = prom.value.length)
    (size_le : prom.valueSize ≤ paxosMaxValueSize) (acceptorId : Int) :
    LeaderRecords cfg (handlePromise cfg s prom acceptorId).1 := by
  have hstored := (h.records (cfg.proposerArraySize.index prom.iid)).store size_eq size_le
    acceptorId
  have hout := handlePromise_outcome cfg s prom acceptorId
  generalize LibFastPaxos.handlePromise cfg s prom acceptorId = res at hout ⊢
  cases hout with
  | ignored => exact h
  | stored => exact h.setSlot prom.iid hstored
  | reached _ _ p1info =>
      have hready : ProposerRecord.Sendable
          { (s.slot cfg prom.iid).store prom acceptorId with status := .p1Ready } :=
        ⟨hstored.ballot, hstored.promises⟩
      exact (h.setSlot prom.iid hready).congr rfl rfl

theorem LeaderRecords.storePromises (h : LeaderRecords cfg s) {batch : PromiseBatchMsg}
    (sizes : ∀ p ∈ batch.data, p.valueSize = p.value.length ∧ p.valueSize ≤ paxosMaxValueSize) :
    LeaderRecords cfg (storePromises cfg s batch) := by
  have hproms : ∀ p ∈ batch.data.take batch.count.toNat, p ∈ batch.data :=
    fun p hp => List.mem_of_mem_take hp
  simp only [LibFastPaxos.storePromises]
  generalize batch.data.take batch.count.toNat = proms at hproms ⊢
  induction proms generalizing s with
  | nil => exact h
  | cons p proms ih =>
      obtain ⟨hsize, hle⟩ := sizes p (hproms p List.mem_cons_self)
      exact ih (h.handlePromise hsize hle batch.acceptorId)
        fun q hq => hproms q (List.mem_cons_of_mem p hq)

/-- The accept for a stored promise has a value of its size. -/
theorem ProposerRecord.Sendable.accept {r : ProposerRecord} (h : r.Sendable) {pi : PromiseInfo}
    (value : phase2Value cfg r = some pi) :
    (acceptOf cfg r pi).valueSize = (acceptOf cfg r pi).value.length ∧
      (acceptOf cfg r pi).valueSize ≤ paxosMaxValueSize := by
  obtain ⟨⟨j, -, hj⟩, -, -⟩ := phase2Value_spec value
  have hsized : pi.Sized := hj ▸ h.promises j
  refine ⟨?_, hsized.size_le⟩
  simp only [acceptOf]
  rw [memcpy_of_length hsized.size_eq]
  exact hsized.size_eq

end Records

/-! ### Prepares -/

section Handlers

variable {cfg : Config} {s t : LeaderState} {b : LeaderBuffer}

/-- The state and the buffer while prepares are added. -/
structure Preparing (cfg : Config) (s : LeaderState) (b : LeaderBuffer) : Prop where
  records : LeaderRecords cfg s
  spelled : PreparesSpelled s b

/-- A record is put into its slot and a prepare for it into the buffer. -/
theorem Preparing.prepare (h : Preparing cfg s b) {i : Int} {r : ProposerRecord}
    (hr : r.Sendable) (info : Phase1Info) (iid ballot : Int) :
    Preparing cfg (addPrepareToBuffer ({ s with p1info := info }.setSlot cfg i r) iid ballot)
      (b.addPrepare iid ballot) := by
  have hstate : PreparesSpelled ({ s with p1info := info }.setSlot cfg i r) b :=
    h.spelled.congr rfl rfl rfl
  obtain ⟨msgSize, prepares, sent, heq⟩ :=
    addPrepareToBuffer_eq ({ s with p1info := info }.setSlot cfg i r) iid ballot
  refine ⟨?_, hstate.addPrepare iid ballot⟩
  rw [heq]
  exact (h.records.setSlot i hr).congr rfl rfl

theorem Preparing.openInstance (h : Preparing cfg s b) (i : Int) :
    Preparing cfg (openInstance cfg s i) (b.openInstance cfg s i) := by
  simp only [LibFastPaxos.openInstance, LeaderBuffer.openInstance]
  split
  · exact h.prepare (.cleared h.records.firstBallot_fits) _ i (cfg.firstBallot s.proposerId)
  · exact h

theorem Preparing.retryInstance (h : Preparing cfg s b) (i : Int) :
    Preparing cfg (retryInstance cfg s i) (b.retryInstance cfg s i) := by
  simp only [LibFastPaxos.retryInstance, LeaderBuffer.retryInstance]
  split
  · exact h.prepare (.cleared (ballotNext_fits32 cfg _)) s.p1info (s.slot cfg i).iid _
  · exact h

/-- Sent if there is anything in it. -/
theorem Preparing.flush (h : Preparing cfg s b) :
    Preparing cfg (if s.prepares.count > 0 then s.flushPrepares else s)
      (if b.batchCount > 0 then b.flush else b) := by
  rw [h.spelled.held.batchCount]
  split
  · exact ⟨h.records.congr rfl rfl, h.spelled.flush⟩
  · exact h

theorem Preparing.setP1info (h : Preparing cfg s b) (info : Phase1Info) :
    Preparing cfg { s with p1info := info } b :=
  ⟨h.records.congr rfl rfl, h.spelled.congr rfl rfl rfl⟩

theorem Preparing.executePhase1 (h : Preparing cfg s b) :
    Preparing cfg (executePhase1 cfg s) (b.executePhase1 cfg s) := by
  have hloop : ∀ is : List Int, Preparing cfg (is.foldl (LibFastPaxos.openInstance cfg) s)
      (is.foldl (sideBySide (LibFastPaxos.openInstance cfg) (LeaderBuffer.openInstance cfg))
        (s, b)).2 :=
    fun is => foldl_sideBySide (Preparing cfg) (fun _ _ i _ h => h.openInstance i) h
  simp only [LibFastPaxos.executePhase1, LeaderBuffer.executePhase1]
  apply Preparing.flush
  split <;> split <;> first
    | exact hloop _
    | exact (hloop _).setP1info _

theorem Preparing.phase1CheckCb (h : LeaderRecords cfg s)
    (length : (b.bytes.length : Int) = maxUdpMsgSize) (sent : Spells b.sent s.sent) :
    Preparing cfg (phase1CheckCb cfg s) (b.phase1CheckCb cfg s) := by
  have hinit : Preparing cfg s.initPrepares b.initPrepares :=
    ⟨h.congr rfl rfl, initPrepares_spelled length sent⟩
  have hloop : ∀ is : List Int,
      Preparing cfg (is.foldl (LibFastPaxos.retryInstance cfg) s.initPrepares)
        (is.foldl (sideBySide (LibFastPaxos.retryInstance cfg) (LeaderBuffer.retryInstance cfg))
          (s.initPrepares, b.initPrepares)).2 :=
    fun is => foldl_sideBySide (Preparing cfg) (fun _ _ i _ h => h.retryInstance i) hinit
  simp only [LibFastPaxos.phase1CheckCb, LeaderBuffer.phase1CheckCb, sideBySide_fst]
  apply Preparing.flush
  split
  · exact (hloop _).executePhase1
  · exact hloop _

/-- Between two events: the buffer may hold anything. -/
structure LeaderSpelled (cfg : Config) (s : LeaderState) (b : LeaderBuffer) : Prop where
  records : LeaderRecords cfg s
  length : (b.bytes.length : Int) = maxUdpMsgSize
  sent : Spells b.sent s.sent

theorem Preparing.done (h : Preparing cfg s b) : LeaderSpelled cfg s b :=
  ⟨h.records, h.spelled.held.filled.length, h.spelled.sent⟩

theorem LeaderSpelled.phase1CheckCb (h : LeaderSpelled cfg s b) :
    LeaderSpelled cfg (phase1CheckCb cfg s) (b.phase1CheckCb cfg s) :=
  (Preparing.phase1CheckCb h.records h.length h.sent).done

theorem LeaderSpelled.phase2CheckCb (h : LeaderSpelled cfg s b)
    (run : phase2CheckCb cfg s = some t) : LeaderSpelled cfg t (b.phase2CheckCb cfg s) := by
  simp only [LibFastPaxos.phase2CheckCb] at run
  simp only [LeaderBuffer.phase2CheckCb]
  split
  · next stuck =>
      rw [if_pos stuck] at run
      split at run
      · cases run
      · obtain rfl := Option.some.inj run
        have hinit : Preparing cfg s.initPrepares b.initPrepares :=
          ⟨h.records.congr rfl rfl, initPrepares_spelled h.length h.sent⟩
        have hrestarted : ((s.slot cfg s.currentIid).restarted cfg).Sendable :=
          ⟨ballotNext_fits32 cfg _, fun _ => clearedPromise_sized⟩
        have hprepared := hinit.prepare (i := s.currentIid) hrestarted
          (s.p1info.putBack (s.slot cfg s.currentIid).status) (s.slot cfg s.currentIid).iid
          (cfg.ballotNext (s.slot cfg s.currentIid).ballot)
        exact ⟨hprepared.records.congr rfl rfl, hprepared.spelled.flush.held.filled.length,
          hprepared.spelled.flush.sent⟩
  · next moved =>
      rw [if_neg moved] at run
      obtain rfl := Option.some.inj run
      exact ⟨h.records.congr rfl rfl, h.length, h.sent⟩

theorem LeaderSpelled.leaderDeliverValue (h : LeaderSpelled cfg s b) (iid : Int) :
    LeaderSpelled cfg (leaderDeliverValue s iid) b :=
  ⟨h.records.congr rfl rfl, h.length, h.sent⟩

theorem leaderInit_spelled {propId : Int} (nonneg : 0 ≤ propId) (lt : propId < cfg.maxProposers)
    (mem : UdpBuffer) :
    LeaderSpelled cfg (leaderInit cfg propId)
      (LeaderBuffer.leaderInit cfg propId { bytes := mem.bytes, sent := [] }) := by
  have hrecords : LeaderRecords cfg (LeaderBuffer.leaderInit.startOf propId).initPrepares :=
    ⟨nonneg, lt, fun k => ⟨show FitsInt32 0 by decide,
      fun j => ⟨rfl, show (0 : Int) ≤ 8960 by decide⟩⟩⟩
  have hinit : Preparing cfg (LeaderBuffer.leaderInit.startOf propId).initPrepares
      (LeaderBuffer.initPrepares { bytes := mem.bytes, sent := [] }) :=
    ⟨hrecords, initPrepares_spelled mem.length_eq .nil⟩
  exact hinit.executePhase1.done

/-! ### Phase 2 -/

/-- The state and the buffer in the loop of `execute_phase2`. -/
structure Answering (cfg : Config) (s : LeaderState) (b : LeaderBuffer) : Prop where
  records : LeaderRecords cfg s
  spelled : AnymsgSpelled s b

theorem acceptBuffer_filled (stack : UdpBuffer) {m : AcceptMsg}
    (sized : m.valueSize = m.value.length) (small : m.valueSize ≤ paxosMaxValueSize) :
    (LeaderBuffer.acceptBuffer stack m).Filled maxUdpMsgSize m.row m.value := by
  have hlength : ((Sender.mk stack.bytes []).bytes.length : Int) = maxUdpMsgSize := stack.length_eq
  obtain ⟨xs, hlen, hxs⟩ := Sender.exists_filled 6 hlength (show (4 : Int) * 6 ≤ 9000 by decide)
  match xs, hlen with
  | [x₀, x₁, x₂, x₃, x₄, x₅], _ =>
      have hiid := hxs.set (k := 2) (show 2 < 6 by decide) rfl m.iid
      have hballot := hiid.set (k := 3) (show 3 < 6 by decide) rfl m.ballot
      have hsize := hballot.set (k := 4) (show 4 < 6 by decide) rfl m.valueSize
      have hproposer := hsize.set (k := 5) (show 5 < 6 by decide) rfl m.proposerId
      have hroom : 24 + (m.value.length : Int) ≤ maxUdpMsgSize := by
        simp only [paxosMaxValueSize, maxUdpMsgSize] at small ⊢
        omega
      have hvalue := hproposer.copy rfl hroom
      have hmsgSize := hvalue.set (k := 0) (show 0 < 6 by decide) rfl
        (sizeofAcceptMsg + m.valueSize)
      exact hmsgSize.set (k := 1) (show 1 < 6 by decide) rfl paxosAccept

theorem sendAccept_spelled {packets : List PaxosMsg} (sent : Spells b.sent packets)
    (stack : UdpBuffer) {m : AcceptMsg} (sized : m.valueSize = m.value.length)
    (small : m.valueSize ≤ paxosMaxValueSize) :
    Spells (b.sendAccept stack m).sent
      ({ size := sizeofAcceptMsg + m.valueSize, data := .accept m } :: packets) := by
  have hfilled := acceptBuffer_filled stack sized small
  have hbuffer : Sender.Filled { LeaderBuffer.acceptBuffer stack m with sent := b.sent }
      maxUdpMsgSize m.row m.value := ⟨hfilled.length, hfilled.starts⟩
  have hget : Sender.get { LeaderBuffer.acceptBuffer stack m with sent := b.sent } 0 =
      sizeofAcceptMsg + m.valueSize :=
    hbuffer.get (k := 0) rfl rfl (AcceptMsg.size_fits sized small)
  simp only [LeaderBuffer.sendAccept]
  rw [hget]
  exact accept_sent hbuffer sent sized small

theorem bufferItem_proposerId (i ballot : Int) :
    (bufferItem s i ballot).proposerId = s.proposerId := by
  simp only [bufferItem, appendAnymsgToBuffer]
  split <;> split <;> rfl

theorem Answering.phase2Instance (h : Answering cfg s b) (stack : Int → UdpBuffer) (i : Int) :
    Answering cfg (phase2Instance cfg s i) (b.phase2Instance cfg stack s i) := by
  have hrecord : (s.slot cfg i).Sendable := h.records.records _
  have hfinished : ProposerRecord.Sendable { s.slot cfg i with status := .p1Finished } :=
    ⟨hrecord.ballot, hrecord.promises⟩
  by_cases ready : (s.slot cfg i).status = .p1Ready
  · simp only [LeaderBuffer.phase2Instance, ready, ne_eq, not_true, if_false]
    cases value : phase2Value cfg (s.slot cfg i) with
    | none =>
        rw [phase2Instance_of_no_value ready value]
        have hitem := (h.spelled.raiseBallot hrecord.ballot).appendId i
        have hrecords := h.records.congr (bufferItem_proposerId i (s.slot cfg i).ballot)
          (bufferItem_array i _)
        exact ⟨hrecords.setSlot i hfinished, hitem.held, hitem.room, hitem.sent⟩
    | some pi =>
        rw [phase2Instance_of_value ready value]
        obtain ⟨hsize, hle⟩ := hrecord.accept value
        refine ⟨(h.records.setSlot i hfinished).congr rfl rfl, ?_⟩
        have hheld := h.spelled.held
        exact ⟨⟨⟨hheld.filled.length, hheld.filled.starts⟩, hheld.count_eq, hheld.size_eq,
          hheld.ballot_fits⟩, h.spelled.room, sendAccept_spelled h.spelled.sent (stack i) hsize hle⟩
  · rw [phase2Instance_of_not_ready ready]
    simp only [LeaderBuffer.phase2Instance, ready, ne_eq, not_false_eq_true, if_true]
    exact h

theorem LeaderSpelled.executePhase2 (h : LeaderSpelled cfg s b) (stack : Int → UdpBuffer)
    (firstIid lastIid : Int) :
    LeaderSpelled cfg (executePhase2 cfg s firstIid lastIid)
      (b.executePhase2 cfg stack s firstIid lastIid) := by
  have hinit : Answering cfg s.initAnymsg b.initAnymsg :=
    ⟨h.records.congr rfl rfl, initAnymsg_spelled h.length h.sent⟩
  have hloop := foldl_sideBySide (Answering cfg)
    (fun _ _ i (_ : i ∈ idsFromTo firstIid lastIid) h => Answering.phase2Instance h stack i) hinit
  simp only [LibFastPaxos.executePhase2, LeaderBuffer.executePhase2]
  rw [hloop.spelled.held.anyCount]
  split
  · exact ⟨hloop.records.congr rfl rfl, hloop.spelled.flush.held.filled.length,
      hloop.spelled.flush.sent⟩
  · exact ⟨hloop.records, hloop.spelled.held.filled.length, hloop.spelled.sent⟩

/-- The batch holds values of their sizes. -/
theorem LeaderSpelled.leaderHandlePromiseMsg (h : LeaderSpelled cfg s b)
    (stack : Int → UdpBuffer) {batch : PromiseBatchMsg}
    (sizes : ∀ p ∈ batch.data, p.valueSize = p.value.length ∧ p.valueSize ≤ paxosMaxValueSize) :
    LeaderSpelled cfg (leaderHandlePromiseMsg cfg s batch)
      (b.leaderHandlePromiseMsg cfg stack s batch) := by
  have hstored : LeaderSpelled cfg (storePromises cfg s batch) b := by
    refine ⟨h.records.storePromises sizes, h.length, ?_⟩
    rw [storePromises_sent]
    exact h.sent
  exact hstored.executePhase2 stack _ _

/-! ### Runs -/

/-- The event on the buffer, and what the stack holds when accepts are sent. -/
def LeaderBuffer.event (cfg : Config) (stack : Int → UdpBuffer) (s : LeaderState)
    (b : LeaderBuffer) : LeaderEvent → LeaderBuffer
  | .promises batch => b.leaderHandlePromiseMsg cfg stack s batch
  | .phase1Timer => b.phase1CheckCb cfg s
  | .phase2Timer => b.phase2CheckCb cfg s
  | .deliver _ => b

/-- State and buffer take the event. -/
def leaderBytesEvent (cfg : Config) (p : LeaderState × LeaderBuffer)
    (event : LeaderEvent × (Int → UdpBuffer)) : Option (LeaderState × LeaderBuffer) :=
  (leaderEvent cfg p.1 event.1).map fun t => (t, p.2.event cfg event.2 p.1 event.1)

/-- The promises of the event hold values of their sizes, not too big. -/
def LeaderEvent.Sized : LeaderEvent → Prop
  | .promises batch =>
      ∀ p ∈ batch.data, p.valueSize = p.value.length ∧ p.valueSize ≤ paxosMaxValueSize
  | .phase1Timer | .phase2Timer | .deliver _ => True

theorem LeaderSpelled.event (h : LeaderSpelled cfg s b) {event : LeaderEvent}
    (stack : Int → UdpBuffer) (sized : event.Sized) (run : leaderEvent cfg s event = some t) :
    LeaderSpelled cfg t (b.event cfg stack s event) := by
  cases event with
  | promises batch =>
      obtain rfl := Option.some.inj run
      exact h.leaderHandlePromiseMsg stack sized
  | phase1Timer =>
      obtain rfl := Option.some.inj run
      exact h.phase1CheckCb
  | phase2Timer => exact h.phase2CheckCb run
  | deliver iid =>
      obtain rfl := Option.some.inj run
      exact h.leaderDeliverValue iid

/-- The datagrams of a leader spell its packets, one by one. -/
theorem leader_datagrams_spell {propId : Int} (nonneg : 0 ≤ propId)
    (lt : propId < cfg.maxProposers) (mem : UdpBuffer)
    {events : List (LeaderEvent × (Int → UdpBuffer))} (sized : ∀ e ∈ events, e.1.Sized)
    {p : LeaderState × LeaderBuffer}
    (run : events.foldlM (leaderBytesEvent cfg) (leaderInit cfg propId,
      LeaderBuffer.leaderInit cfg propId { bytes := mem.bytes, sent := [] }) = some p) :
    Spells p.2.sent p.1.sent := by
  have hspelled : LeaderSpelled cfg p.1 p.2 := by
    have hmeets : ∀ p, Meets (leaderBytesEvent cfg) anyStep p events :=
      fun p => Meets.of_forall (fun _ _ => trivial) events p
    refine Meets.invariant (P := fun e => e.1.Sized) (fun p => LeaderSpelled cfg p.1 p.2) ?_
      sized (leaderInit_spelled nonneg lt mem) (hmeets _) run
    intro p e q hsized h _ move
    obtain ⟨t, ht, rfl⟩ := Option.map_eq_some_iff.mp move
    exact h.event e.2 hsized ht
  exact hspelled.sent

/-- Promises for two instances, the second with a value of the fast round. -/
def answersOf (acceptorId : Int) : PromiseBatchMsg where
  acceptorId := acceptorId
  count := 2
  data := [⟨0, 20, -1, 0, []⟩, ⟨1, 20, 11, 1, [7]⟩]

def answeredEvents : List (LeaderEvent × (Int → UdpBuffer)) :=
  [0, 1, 2].map fun a => (.promises (answersOf a), fun _ => zeroBuffer)

theorem answeredEvents_sized : ∀ e ∈ answeredEvents, e.1.Sized := by
  have hsized : ∀ a, (LeaderEvent.promises (answersOf a)).Sized := by
    intro a p hp
    simp only [answersOf, List.mem_cons, List.not_mem_nil, or_false] at hp
    rcases hp with rfl | rfl
    · decide
    · decide
  intro e he
  obtain ⟨a, -, rfl⟩ := List.mem_map.mp he
  exact hsized a

/-- The prepares of `leader_init`, an accept for instance 1 and an anyval for instance 0. -/
theorem leader_datagrams_spell_answered :
    ∃ p, answeredEvents.foldlM (leaderBytesEvent .shipped) (leaderInit .shipped 0,
          LeaderBuffer.leaderInit .shipped 0 { bytes := zeroBuffer.bytes, sent := [] }) = some p ∧
      Spells p.2.sent p.1.sent ∧
      p.1.sent.map (fun packet => packet.data.type) =
        [paxosAnyval, paxosAccept, paxosPrepare] := by
  have hrun : ∃ p, answeredEvents.foldlM (leaderBytesEvent .shipped) (leaderInit .shipped 0,
        LeaderBuffer.leaderInit .shipped 0 { bytes := zeroBuffer.bytes, sent := [] }) = some p ∧
      p.1.sent.map (fun packet => packet.data.type) =
        [paxosAnyval, paxosAccept, paxosPrepare] := ⟨_, rfl, by decide +kernel⟩
  obtain ⟨p, run, htypes⟩ := hrun
  have hid : (0 : Int) < Config.shipped.maxProposers := by decide
  exact ⟨p, run, leader_datagrams_spell (Int.le_refl 0) hid zeroBuffer answeredEvents_sized run,
    htypes⟩

end Handlers
end LibFastPaxos
