import LibFastPaxos.PromiseRoundTrip
import LibFastPaxos.Spelling

/-!
`send_buffer` of an acceptor as bytes. Promises are packed into it while a prepare batch is
handled; a learn is written over whatever is left there and sent at once. The datagrams
spell the packets of the acceptor.
-/

namespace LibFastPaxos

open Memory Transition

/-! ### Learns -/

/-- A learn that an acceptor may send. -/
structure LearnMsg.Sendable (acceptorId : Int) (m : LearnMsg) : Prop where
  acceptorId_eq : m.acceptorId = acceptorId
  size_eq : m.valueSize = m.value.length
  size_le : m.valueSize ≤ paxosMaxValueSize

/-- The packet that carries a learn. -/
def LearnMsg.packet (m : LearnMsg) : PaxosMsg where
  size := sizeofLearnMsg + m.valueSize
  data := .learn m

namespace SendBuffer

/-- `send_learn_message`, before the flush. -/
def fillLearn (b : SendBuffer) (m : LearnMsg) : SendBuffer :=
  let mem := (b.set 8 m.acceptorId).set 12 m.iid
  let mem := ((mem.set 20 m.proposerId).set 16 m.ballot).set 24 m.valueSize
  { b with
    toSender := mem.copy 28 m.value
    size := sizeofLearnMsg + sizeofPaxosMsg + m.valueSize }

/-- `send_learn_message`. -/
def sendLearn (b : SendBuffer) (m : LearnMsg) : SendBuffer := (b.fillLearn m).flush paxosLearn

end SendBuffer

section Learns

variable {b : SendBuffer} {m : LearnMsg} {packets : List PaxosMsg} {acceptorId : Int}

theorem LearnMsg.Sendable.bytes_length (h : m.Sendable acceptorId) :
    (m.bytes.length : Int) = sizeofLearnMsg + m.valueSize := by
  rw [LearnMsg.bytes, List.length_append, ints_length, h.size_eq]
  rfl

theorem LearnMsg.Sendable.spelled (h : m.Sendable acceptorId) :
    Spelled m.packet.bytes m.packet where
  bytes_eq := rfl
  size_eq := h.bytes_length.symm
  sized := ⟨h.size_eq, h.size_le⟩
  room := by
    have small := h.size_le
    simp only [LearnMsg.packet, paxosMaxValueSize, sizeofPaxosMsg, sizeofLearnMsg,
      maxUdpMsgSize] at small ⊢
    omega

/-- The learn as the buffer holds it when it is flushed. -/
theorem fillLearn_holding (length : (b.bytes.length : Int) = maxUdpMsgSize)
    (h : m.Sendable acceptorId) :
    (b.fillLearn m).Holding maxUdpMsgSize sizeofPaxosMsg m.bytes := by
  obtain ⟨xs, hlen, hxs⟩ := Sender.exists_filled 7 length (show (4 : Int) * 7 ≤ 9000 by decide)
  match xs, hlen with
  | [x₀, x₁, x₂, x₃, x₄, x₅, x₆], _ =>
      have hacceptor := hxs.set (k := 2) (show 2 < 7 by decide) rfl m.acceptorId
      have hiid := hacceptor.set (k := 3) (show 3 < 7 by decide) rfl m.iid
      have hproposer := hiid.set (k := 5) (show 5 < 7 by decide) rfl m.proposerId
      have hballot := hproposer.set (k := 4) (show 4 < 7 by decide) rfl m.ballot
      have hsize := hballot.set (k := 6) (show 6 < 7 by decide) rfl m.valueSize
      have hroom : 28 + (m.value.length : Int) ≤ maxUdpMsgSize := by
        have sized := h.size_eq
        have small := h.size_le
        simp only [paxosMaxValueSize, maxUdpMsgSize] at small ⊢
        omega
      exact (hsize.copy rfl hroom).behind 2 (show 2 ≤ 7 by decide) rfl

theorem sendLearn_spelled (length : (b.bytes.length : Int) = maxUdpMsgSize)
    (sent : Spells b.sent packets) (h : m.Sendable acceptorId) :
    ((b.sendLearn m).bytes.length : Int) = maxUdpMsgSize ∧
      Spells (b.sendLearn m).sent (m.packet :: packets) := by
  have hbytes := h.bytes_length
  have hsize : (b.fillLearn m).size = sizeofPaxosMsg + m.bytes.length := by
    rw [hbytes]
    simp only [SendBuffer.fillLearn]
    omega
  obtain ⟨hsent, hlength⟩ := SendBuffer.flush_spec (fillLearn_holding length h) hsize paxosLearn
  rw [hbytes] at hsent
  refine ⟨hlength, ?_⟩
  rw [SendBuffer.sendLearn, hsent]
  exact .cons h.spelled sent

end Learns

/-! ### Operations -/

section Answers

variable (cfg : Config) (env : DiskEnv)

/-- The learn that an acceptor answers with. -/
def learnFor (s : AcceptorState) : AcceptorOp → Option LearnMsg
  | .accept amsg =>
      let found := readRecord cfg env s amsg.iid
      if amsg.Applied cfg found then
        some (learnOf s.acceptorId (amsg.record (acceptBase (blankRecord cfg s amsg.iid) found)))
      else none
  | .lsync iid =>
      ((readRecord cfg env s iid).filter fun r => r.value.isSome).map (learnOf s.acceptorId)
  | .prepare _ | .anyval _ _ => none

/-- The learns for operations that are handled one after the other. -/
def learnsGiven : AcceptorState → List AcceptorOp → List LearnMsg
  | _, [] => []
  | s, op :: ops =>
      (learnFor cfg env s op).toList ++
        (handleOp cfg env s op).elim [] fun t => learnsGiven t ops

/-- `handle_message` on the buffer. -/
def SendBuffer.handleMessage (s : AcceptorState) (b : SendBuffer) : PaxosData → SendBuffer
  | .prepare bmsg => b.sendBatch (grantedTo cfg env s bmsg)
  | data => (learnsGiven cfg env s data.ops).foldl SendBuffer.sendLearn b

/-- `get_next_message` on the buffer. -/
def SendBuffer.getNextMessage (s : AcceptorState) (b : SendBuffer) (buf : UdpBuffer)
    (d : Datagram) : SendBuffer :=
  let mem := buf.receive d
  let request := do
    let size ← intAt mem 0
    if sizeT size ≠ sizeT d.bytes.length - sizeT sizeofPaxosMsg then none
    else
      let type ← intAt mem 4
      (← readRequest mem type)
  request.elim b (b.handleMessage cfg env s)

end Answers

section Operations

variable {cfg : Config} {env : DiskEnv} {s t : AcceptorState} {b : SendBuffer}

/-- A record makes a learn of its size. -/
theorem learnOf_sendable {r : AcceptorRecord} (acceptorId : Int) (fits : (flatten r).Fits)
    (sized : (flatten r).Sized) : (learnOf acceptorId r).Sendable acceptorId := by
  have hlen := fits.length sized.le_max
  refine ⟨rfl, ?_, sized.le_max⟩
  have hvalue : (learnOf acceptorId r).value = (flatten r).value := rfl
  rw [hvalue, hlen, Int.toNat_of_nonneg sized.nonneg]
  rfl

theorem sendLearnMessage_sent (s : AcceptorState) (r : AcceptorRecord) :
    (sendLearnMessage s r).sent = (learnOf s.acceptorId r).packet :: s.sent := rfl

/-- Everything but a prepare sends the learn that it is answered with. -/
theorem handleOp_learns {op : AcceptorOp} (other : ∀ msg, op ≠ .prepare msg)
    (run : handleOp cfg env s op = some t) :
    t.sent = (learnFor cfg env s op).toList.map LearnMsg.packet ++ s.sent := by
  cases op with
  | prepare msg => exact absurd rfl (other msg)
  | accept amsg =>
      obtain rfl := Option.some.inj run
      by_cases applied : amsg.Applied cfg (readRecord cfg env s amsg.iid)
      · rw [handleAccept_applied applied, sendLearnMessage_sent]
        simp [learnFor, applied, writeBack_frame, Effect.sent?]
      · rw [handleAccept_refused applied]
        simp [learnFor, applied]
  | lsync iid =>
      obtain rfl := Option.some.inj run
      rw [handleLsync_eq]
      cases hr : readRecord cfg env s iid with
      | none => simp [learnFor, hr]
      | some r =>
          dsimp only
          split
          · next value =>
              rw [sendLearnMessage_sent]
              simp [learnFor, hr, Option.filter, value]
          · next empty => simp [learnFor, hr, Option.filter, empty]
  | anyval iid ballot =>
      cases handleOp_branch run with
      | opened _ => simp [learnFor, writeBack_frame, Effect.sent?]
      | refused _ => simp [learnFor]

end Operations

/-! ### Messages -/

section Messages

variable {cfg : Config} {env : DiskEnv} {s t : AcceptorState} {b : SendBuffer}
  {packets : List PaxosMsg}

/-- The learn that an operation is answered with can be sent. -/
theorem learnFor_sendable {op : AcceptorOp} (h : s.Sendable) (fits : op.Fits)
    (sized : op.Sized) : ∀ m ∈ learnFor cfg env s op, m.Sendable s.acceptorId := by
  intro m hm
  cases op with
  | prepare _ | anyval _ _ => cases hm
  | accept amsg =>
      obtain ⟨-, hm⟩ := Option.ite_none_right_eq_some.mp hm
      obtain rfl := Option.some.inj hm
      refine learnOf_sendable s.acceptorId ?_ ?_
      · rw [accept_flatten]
        exact FlatRecord.Fits.copied fits
      · rw [accept_flatten]
        exact FlatRecord.Sized.copied sized
  | lsync iid =>
      obtain ⟨r, hr, rfl⟩ := Option.map_eq_some_iff.mp hm
      obtain ⟨hread, -⟩ := Option.filter_eq_some_iff.mp hr
      exact learnOf_sendable s.acceptorId
        (h.fits.records.read (fun _ => FlatRecord.Fits.copied) hread)
        (h.sizes.read (fun _ => FlatRecord.Sized.copied) hread)

theorem learnsGiven_sendable {ops : List AcceptorOp} (h : s.Sendable)
    (sized : ∀ op ∈ ops, op.Fits ∧ op.Sized) :
    ∀ m ∈ learnsGiven cfg env s ops, m.Sendable s.acceptorId := by
  induction ops generalizing s with
  | nil => exact fun _ hm => by cases hm
  | cons op ops ih =>
      have hop := sized op List.mem_cons_self
      intro m hm
      cases List.mem_append.mp hm with
      | inl first => exact learnFor_sendable h hop.1 hop.2 m (Option.mem_toList.mp first)
      | inr rest =>
          cases run : handleOp cfg env s op with
          | none =>
              rw [run] at rest
              cases rest
          | some t =>
              rw [run] at rest
              have htail : ∀ op ∈ ops, op.Fits ∧ op.Sized :=
                fun op hmem => sized op (List.mem_cons_of_mem _ hmem)
              rw [← handleOp_acceptorId run]
              exact ih (h.op hop.1 hop.2 run) htail m rest

theorem ops_learns {ops : List AcceptorOp} (other : ∀ msg, .prepare msg ∉ ops)
    (run : ops.foldlM (handleOp cfg env) s = some t) :
    t.sent = ((learnsGiven cfg env s ops).map LearnMsg.packet).reverse ++ s.sent := by
  induction ops generalizing s with
  | nil =>
      obtain rfl := Option.some.inj run
      rfl
  | cons op ops ih =>
      rw [List.foldlM_cons] at run
      obtain ⟨u, hu, rest⟩ := Option.bind_eq_some_iff.mp run
      have hop : ∀ msg, op ≠ .prepare msg := fun msg h => other msg (h ▸ List.mem_cons_self)
      have htail : ∀ msg, .prepare msg ∉ ops := fun msg h => other msg (List.mem_cons_of_mem op h)
      rw [ih htail rest, handleOp_learns hop hu, learnsGiven, hu]
      cases learnFor cfg env s op with
      | none => simp
      | some m => simp

/-- Learns are sent one after the other from the same buffer. -/
theorem sendLearns_spelled {learns : List LearnMsg} {acceptorId : Int}
    (length : (b.bytes.length : Int) = maxUdpMsgSize) (sent : Spells b.sent packets)
    (sendable : ∀ m ∈ learns, m.Sendable acceptorId) :
    ((learns.foldl SendBuffer.sendLearn b).bytes.length : Int) = maxUdpMsgSize ∧
      Spells (learns.foldl SendBuffer.sendLearn b).sent
        ((learns.map LearnMsg.packet).reverse ++ packets) := by
  induction learns generalizing b packets with
  | nil => exact ⟨length, sent⟩
  | cons m learns ih =>
      obtain ⟨hm, htail⟩ := List.forall_mem_cons.mp sendable
      obtain ⟨hlength, hsent⟩ := sendLearn_spelled length sent hm
      have hrest := ih hlength hsent htail
      rw [List.map_cons, List.reverse_cons, List.append_assoc]
      exact hrest

theorem PromiseBatchMsg.Sendable.spelled {acceptorId : Int} {batch : PromiseBatchMsg}
    (h : batch.Sendable acceptorId) (small : ∀ p ∈ batch.data, p.Small) :
    Spelled (batchPacket batch).bytes (batchPacket batch) where
  bytes_eq := rfl
  size_eq := rfl
  sized := ⟨h.fits.count_eq, fun p hp =>
    ⟨(small p hp).fits.valueSize_eq, (small p hp).valueSize_le⟩⟩
  room := by
    have hroom := h.room
    rw [batchPacket_length] at hroom
    exact hroom

theorem batches_spelled {acceptorId : Int} {batches : List PromiseBatchMsg}
    (sendable : ∀ batch ∈ batches, batch.Sendable acceptorId)
    (small : ∀ p ∈ batches.flatMap PromiseBatchMsg.data, p.Small) {wire : List Bytes}
    (sent : Spells wire packets) :
    Spells ((batches.map fun batch => (batchPacket batch).bytes).reverse ++ wire)
      ((batches.map batchPacket).reverse ++ packets) := by
  induction batches generalizing wire packets with
  | nil => exact sent
  | cons batch batches ih =>
      obtain ⟨hbatch, htail⟩ := List.forall_mem_cons.mp sendable
      obtain ⟨hfirst, hsmall⟩ := List.forall_mem_append.mp small
      have hrest := ih htail hsmall (.cons (hbatch.spelled hfirst) sent)
      simpa using hrest

/-- The message names the acceptor that it is from. -/
def PaxosData.IsFrom (acceptorId : Int) : PaxosData → Prop
  | .promise batch => batch.acceptorId = acceptorId
  | .learn lmsg => lmsg.acceptorId = acceptorId
  | .prepare _ | .accept _ | .lsync _ | .anyval _ => True

/-- Between two messages. -/
structure AcceptorSpelled (s : AcceptorState) (b : SendBuffer) : Prop where
  stored : s.Sendable
  acceptorId_eq : s.acceptorId = b.acceptorId
  length : (b.bytes.length : Int) = maxUdpMsgSize
  sent : Spells b.sent s.sent
  own : ∀ packet ∈ s.sent, packet.data.IsFrom s.acceptorId

theorem sendLearns_acceptorId (b : SendBuffer) (learns : List LearnMsg) :
    (learns.foldl SendBuffer.sendLearn b).acceptorId = b.acceptorId := by
  induction learns generalizing b with
  | nil => rfl
  | cons m learns ih => exact ih (b.sendLearn m)

/-- What a prepare batch leaves in the buffer. -/
theorem sendBatch_buffer {o : Outbox} (ids : o.acceptorId = b.acceptorId)
    (fits : FitsInt32 b.acceptorId) (length : (b.bytes.length : Int) = maxUdpMsgSize)
    {granted : List PromiseMsg} (small : ∀ p ∈ granted, p.Small) :
    (b.sendBatch granted).acceptorId = b.acceptorId ∧
      ((b.sendBatch granted).bytes.length : Int) = maxUdpMsgSize := by
  obtain ⟨done, h⟩ := (Packing.start ids length).addPromises fits small
  simp only [SendBuffer.sendBatch]
  split
  · exact ⟨h.bufferId, h.flushed.2⟩
  · exact ⟨h.bufferId, h.holding.length⟩

theorem AcceptorSpelled.prepare {bmsg : PrepareBatchMsg} (h : AcceptorSpelled s b)
    (ops : ∀ p ∈ bmsg.data.take bmsg.count.toNat, p.Fits)
    (stored : (handlePrepareBatch cfg env s bmsg).Sendable)
    (acceptorId : (handlePrepareBatch cfg env s bmsg).acceptorId = s.acceptorId) :
    AcceptorSpelled (handlePrepareBatch cfg env s bmsg)
      (b.sendBatch (grantedTo cfg env s bmsg)) := by
  have hreset : (resetPromiseBatch s).All fun f => f.Fits ∧ f.Sized :=
    (h.stored.fits.records.and h.stored.sizes).congr rfl rfl
  have hsmall : ∀ p ∈ grantedTo cfg env s bmsg, p.Small := promisesGranted_small hreset ops
  have hfits : FitsInt32 b.acceptorId := h.acceptorId_eq ▸ h.stored.fits.acceptorId
  have hids : s.out.acceptorId = b.acceptorId := h.acceptorId_eq
  obtain ⟨hid, hlength⟩ := sendBatch_buffer hids hfits h.length hsmall
  obtain ⟨batches, hsent, hbytes, hsendable, hgranted⟩ :=
    sendBatch_spec hids hfits h.length hsmall
  rw [← handlePrepareBatch_out] at hsent
  have hout : (handlePrepareBatch cfg env s bmsg).sent =
      (batches.map batchPacket).reverse ++ s.sent := hsent
  refine ⟨stored, acceptorId.trans (h.acceptorId_eq.trans hid.symm), hlength, ?_, ?_⟩
  · rw [hout, hbytes]
    exact batches_spelled hsendable (hgranted ▸ hsmall) h.sent
  · rw [hout, acceptorId]
    refine List.forall_mem_append.mpr ⟨fun packet hpacket => ?_, h.own⟩
    obtain ⟨batch, hbatch, rfl⟩ := List.mem_map.mp (List.mem_reverse.mp hpacket)
    exact (hsendable batch hbatch).acceptorId_eq.trans h.acceptorId_eq.symm

theorem AcceptorSpelled.learns {ops : List AcceptorOp} (h : AcceptorSpelled s b)
    (other : ∀ msg, .prepare msg ∉ ops) (sized : ∀ op ∈ ops, op.Fits ∧ op.Sized)
    (run : ops.foldlM (handleOp cfg env) s = some t) (stored : t.Sendable)
    (acceptorId : t.acceptorId = s.acceptorId) :
    AcceptorSpelled t ((learnsGiven cfg env s ops).foldl SendBuffer.sendLearn b) := by
  have hlearns : ∀ m ∈ learnsGiven cfg env s ops, m.Sendable s.acceptorId :=
    learnsGiven_sendable h.stored sized
  obtain ⟨hlength, hsent⟩ := sendLearns_spelled h.length h.sent hlearns
  refine ⟨stored, ?_, hlength, ?_, ?_⟩
  · rw [acceptorId, h.acceptorId_eq, sendLearns_acceptorId]
  · rw [ops_learns other run]
    exact hsent
  · rw [ops_learns other run, acceptorId]
    refine List.forall_mem_append.mpr ⟨fun packet hpacket => ?_, h.own⟩
    obtain ⟨m, hm, rfl⟩ := List.mem_map.mp (List.mem_reverse.mp hpacket)
    exact (hlearns m hm).acceptorId_eq

theorem AcceptorSpelled.message {msg : PaxosMsg} (h : AcceptorSpelled s b)
    (ops : ∀ op ∈ msg.data.ops, op.Fits ∧ op.Sized)
    (run : handleMessage cfg env s msg = some t) :
    AcceptorSpelled t (b.handleMessage cfg env s msg.data) := by
  obtain ⟨hstored, hid⟩ := h.stored.message ops run
  obtain ⟨size, data⟩ := msg
  cases data with
  | prepare bmsg =>
      obtain rfl := Option.some.inj run
      refine h.prepare (fun p hp => ?_) hstored hid
      exact (ops (.prepare p) (List.mem_map_of_mem hp)).1
  | accept amsg =>
      rw [handleMessage_eq] at run
      obtain ⟨u, hu, rfl⟩ := Option.map_eq_some_iff.mp run
      exact h.learns (by simp [PaxosData.ops]) ops hu hstored hid
  | lsync lsmsg | anyval avmsg =>
      rw [handleMessage_eq] at run
      obtain ⟨u, hu, rfl⟩ := Option.map_eq_some_iff.mp run
      refine h.learns (fun msg hmem => ?_) ops hu hstored hid
      obtain ⟨i, -, heq⟩ := List.mem_map.mp hmem
      cases heq
  | promise batch | learn lmsg =>
      obtain rfl := Option.some.inj run
      exact h

end Messages

/-! ### Runs -/

section Runs

variable {cfg : Config} {env : DiskEnv}

/-- State and buffer take the datagram. -/
def acceptorBytesEvent (cfg : Config) (env : DiskEnv) (p : AcceptorState × SendBuffer)
    (event : UdpBuffer × Datagram) : Option (AcceptorState × SendBuffer) :=
  (getNextMessage cfg env p.1 event.1 event.2).map fun t =>
    (t, p.2.getNextMessage cfg env p.1 event.1 event.2)

/-- An accept that is read from the datagram has a value that a client may submit. -/
def ValuesInRange (buf : UdpBuffer) (d : Datagram) : Prop :=
  ∀ type data, intAt (buf.receive d) 4 = some type →
    readRequest (buf.receive d) type = some (some data) → ∀ op ∈ data.ops, op.Sized

theorem AcceptorSpelled.datagram {s t : AcceptorState} {b : SendBuffer}
    (h : AcceptorSpelled s b) {buf : UdpBuffer} {d : Datagram} (values : ValuesInRange buf d)
    (run : getNextMessage cfg env s buf d = some t) :
    AcceptorSpelled t (b.getNextMessage cfg env s buf d) := by
  obtain ⟨size, hsize, run⟩ := Option.bind_eq_some_iff.mp run
  simp only [SendBuffer.getNextMessage, hsize, Option.bind_eq_bind, Option.bind_some]
  split at run
  · next differs =>
      obtain rfl := Option.some.inj run
      rw [if_pos differs]
      exact h
  · next same =>
      obtain ⟨type, htype, run⟩ := Option.bind_eq_some_iff.mp run
      obtain ⟨request, hrequest, run⟩ := Option.bind_eq_some_iff.mp run
      simp only [if_neg same, htype, hrequest, Option.bind_some]
      cases request with
      | none =>
          obtain rfl := Option.some.inj run
          exact h
      | some data =>
          have hfits := readRequest_fits (receive_length buf d) hrequest
          have hops : ∀ op ∈ data.ops, op.Fits ∧ op.Sized :=
            fun op hop => ⟨hfits op hop, values type data htype hrequest op hop⟩
          exact h.message hops run

theorem valuesInRange_encoded {d : Datagram} {msg : PaxosMsg} (h : d.Encodes msg)
    (sized : ∀ op ∈ msg.data.ops, op.Sized) (buf : UdpBuffer) : ValuesInRange buf d := by
  obtain ⟨-, htype, hdata⟩ := h.header buf
  intro type data hread hrequest
  obtain rfl := Option.some.inj (htype.symm.trans hread)
  cases readRequest_of_holds h.fits hdata with
  | inl hencoded =>
      obtain rfl := Option.some.inj (Option.some.inj (hencoded.symm.trans hrequest))
      exact sized
  | inr hignored =>
      rw [hignored.1] at hrequest
      cases hrequest

theorem acceptorStart_spelled {id : Int} (fits : FitsInt32 id) (mem : UdpBuffer) :
    AcceptorSpelled (acceptorStart id)
      { acceptorId := id, bytes := mem.bytes, size := 0, sent := [] } where
  stored := acceptorStart_sendable fits
  acceptorId_eq := rfl
  length := mem.length_eq
  sent := .nil
  own := fun _ h => by cases h

/-- Whatever the datagrams are, those that an acceptor sends spell its packets, one by one. -/
theorem acceptor_datagrams_spell (cfg : Config) (env : DiskEnv) {id : Int} (fits : FitsInt32 id)
    (mem : UdpBuffer) {events : List (UdpBuffer × Datagram)}
    (values : ∀ e ∈ events, ValuesInRange e.1 e.2) {p : AcceptorState × SendBuffer}
    (run : events.foldlM (acceptorBytesEvent cfg env) (acceptorStart id,
      { acceptorId := id, bytes := mem.bytes, size := 0, sent := [] }) = some p) :
    Spells p.2.sent p.1.sent := by
  have hmeets : ∀ p, Meets (acceptorBytesEvent cfg env) anyStep p events :=
    fun p => Meets.of_forall (fun _ _ => trivial) events p
  have hspelled : AcceptorSpelled p.1 p.2 := by
    refine Meets.invariant (fun p => AcceptorSpelled p.1 p.2) ?_ values
      (acceptorStart_spelled fits mem) (hmeets _) run
    intro p e q hvalues h _ move
    obtain ⟨t, ht, rfl⟩ := Option.map_eq_some_iff.mp move
    exact h.datagram hvalues ht
  exact hspelled.sent

/-- A prepare, an accept with its ballot, and an lsync for the instance. -/
def askedEvents : List (UdpBuffer × Datagram) :=
  [(zeroBuffer, ⟨(preparePacket [⟨0, 20⟩]).bytes, by decide⟩),
    (zeroBuffer, ⟨(acceptPacket ⟨0, 20, 1, 3, [7]⟩).bytes, by decide⟩),
    (zeroBuffer, ⟨(lsyncPacket [0]).bytes, by decide⟩)]

theorem askedEvents_values : ∀ e ∈ askedEvents, ValuesInRange e.1 e.2 := by
  have hprepare : Datagram.Encodes ⟨(preparePacket [⟨0, 20⟩]).bytes, by decide⟩
      (preparePacket [⟨0, 20⟩]) :=
    ⟨⟨by decide, rfl, by simp only [PrepareMsg.Fits]; decide⟩, by decide, List.prefix_refl _⟩
  have haccept : Datagram.Encodes ⟨(acceptPacket ⟨0, 20, 1, 3, [7]⟩).bytes, by decide⟩
      (acceptPacket ⟨0, 20, 1, 3, [7]⟩) :=
    ⟨⟨by decide, rfl⟩, by decide, List.prefix_refl _⟩
  have hlsync : Datagram.Encodes ⟨(lsyncPacket [0]).bytes, by decide⟩ (lsyncPacket [0]) :=
    ⟨⟨by decide, rfl, by decide⟩, by decide, List.prefix_refl _⟩
  simp only [askedEvents, List.forall_mem_cons, List.not_mem_nil, false_imp_iff, implies_true,
    and_true]
  refine ⟨valuesInRange_encoded hprepare ?_ zeroBuffer,
    valuesInRange_encoded haccept ?_ zeroBuffer, valuesInRange_encoded hlsync ?_ zeroBuffer⟩
  · simp [preparePacket, PaxosData.ops, AcceptorOp.Sized]
  · simp [acceptPacket, PaxosData.ops, AcceptorOp.Sized, AcceptMsg.image]
    exact ⟨by decide, by decide⟩
  · simp [lsyncPacket, PaxosData.ops, AcceptorOp.Sized]

/-- A promise, the learn of the accept, and the learn once more. -/
theorem acceptor_datagrams_spell_asked :
    ∃ p, askedEvents.foldlM (acceptorBytesEvent .shipped quietDisk) (acceptorStart 0,
          { acceptorId := 0, bytes := zeroBuffer.bytes, size := 0, sent := [] }) = some p ∧
      Spells p.2.sent p.1.sent ∧
      p.1.sent.map (fun packet => packet.data.type) =
        [paxosLearn, paxosLearn, paxosPromise] := by
  have hrun : (askedEvents.foldlM (acceptorBytesEvent .shipped quietDisk) (acceptorStart 0,
        { acceptorId := 0, bytes := zeroBuffer.bytes, size := 0, sent := [] })).map
      (fun p => p.1.sent.map fun packet => packet.data.type) =
        some [paxosLearn, paxosLearn, paxosPromise] := by decide +kernel
  obtain ⟨p, run, htypes⟩ := Option.map_eq_some_iff.mp hrun
  exact ⟨p, run, acceptor_datagrams_spell .shipped quietDisk (by decide) zeroBuffer
    askedEvents_values run, htypes⟩

end Runs
end LibFastPaxos
