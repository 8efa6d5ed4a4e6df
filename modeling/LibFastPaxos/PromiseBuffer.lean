import LibFastPaxos.AcceptorOutbox
import LibFastPaxos.Wire
import LibFastPaxos.Lib.Rows

/-!
`send_buffer` as bytes. A promise is written at `send_buffer_size`, the count in front of
it is raised in place, and a flush sends so many bytes as were filled; the batches of the
outbox are what these bytes spell.
-/

namespace LibFastPaxos

open Memory

/-- `send_buffer` while promises are packed, with the datagrams sent from it, newest first. -/
structure SendBuffer extends Sender where
  acceptorId : Int
  size : Int

namespace SendBuffer

/-- `flush_send_buffer`. -/
def flush (b : SendBuffer) (msgType : Int) : SendBuffer :=
  let mem := (b.set 0 (b.size - sizeofPaxosMsg)).set 4 msgType
  { b with toSender := mem.send b.size, size := 0 }

/-- The header of an empty batch. -/
def reset (b : SendBuffer) : SendBuffer :=
  let mem := b.set (sizeofPaxosMsg + 4) 0
  { b with
    toSender := mem.set sizeofPaxosMsg b.acceptorId
    size := sizeofPaxosMsg + sizeofPromiseBatchMsg }

def makeRoom (b : SendBuffer) (promiseSize : Int) : SendBuffer :=
  let b := if promiseSize + b.size > maxUdpMsgSize then b.flush paxosPromise else b
  if b.size = 0 then b.reset else b

/-- The fields of a promise are written one after the other, then its value. -/
def writeEntry (b : SendBuffer) (p : PromiseMsg) : Sender :=
  let mem := (b.set b.size p.iid).set (b.size + 4) p.ballot
  let mem := (mem.set (b.size + 8) p.valueBallot).set (b.size + 12) p.valueSize
  if p.valueSize > 0 then mem.copy (b.size + sizeofPromiseMsg) (memcpy p.value p.valueSize)
  else mem

def append (b : SendBuffer) (p : PromiseMsg) : SendBuffer :=
  let mem := b.writeEntry p
  let count := mem.get (sizeofPaxosMsg + 4)
  { b with
    toSender := mem.set (sizeofPaxosMsg + 4) (count + 1)
    size := b.size + (sizeofPromiseMsg + p.valueSize) }

/-- `add_promise_to_send_buffer`. -/
def addPromise (b : SendBuffer) (p : PromiseMsg) : SendBuffer :=
  (b.makeRoom (sizeofPromiseMsg + p.valueSize)).append p

/-- `handle_prepare_batch`, given what it grants. -/
def sendBatch (b : SendBuffer) (granted : List PromiseMsg) : SendBuffer :=
  let b := granted.foldl addPromise b.reset
  if b.get (sizeofPaxosMsg + 4) > 0 then b.flush paxosPromise else b

end SendBuffer

/-- The packet that carries a batch. -/
def batchPacket (batch : PromiseBatchMsg) : PaxosMsg where
  size := batch.bytes.length
  data := .promise batch

/-- A batch that an acceptor may send. -/
structure PromiseBatchMsg.Sendable (acceptorId : Int) (batch : PromiseBatchMsg) : Prop where
  fits : batch.Fits
  acceptorId_eq : batch.acceptorId = acceptorId
  nonempty : batch.data ≠ []
  room : ((batchPacket batch).bytes.length : Int) ≤ maxUdpMsgSize

/-- A promise of a value that a client may submit. -/
structure PromiseMsg.Small (p : PromiseMsg) : Prop where
  fits : p.Fits
  valueSize_le : p.valueSize ≤ paxosMaxValueSize

/-- The outbox and the bytes of the send buffer after these promises: `done` has been sent. -/
structure Packing (acceptorId : Int) (old : List PaxosMsg) (oldBytes : List Bytes)
    (granted : List PromiseMsg) (done : List PromiseBatchMsg) (o : Outbox) (b : SendBuffer) :
    Prop where
  sent : o.sent = (done.map batchPacket).reverse ++ old
  sentBytes : b.sent = (done.map fun batch => (batchPacket batch).bytes).reverse ++ oldBytes
  sendable : ∀ batch ∈ done, batch.Sendable acceptorId
  promises : done.flatMap PromiseBatchMsg.data ++ o.promiseBatch.data = granted
  outboxId : o.acceptorId = acceptorId
  bufferId : b.acceptorId = acceptorId
  batchId : o.promiseBatch.acceptorId = acceptorId
  count_eq : o.promiseBatch.count = o.promiseBatch.data.length
  entries : ∀ p ∈ o.promiseBatch.data, p.Small
  outboxSize : o.sendBufferSize = sizeofPaxosMsg + o.promiseBatch.bytes.length
  bufferSize : b.size = o.sendBufferSize
  room : b.size ≤ maxUdpMsgSize
  holding : b.Holding maxUdpMsgSize sizeofPaxosMsg o.promiseBatch.bytes

section Packing

variable {acceptorId : Int} {old : List PaxosMsg} {oldBytes : List Bytes}
  {granted : List PromiseMsg} {done : List PromiseBatchMsg} {o : Outbox} {b : SendBuffer}

theorem PromiseMsg.Small.bytes_length {p : PromiseMsg} (small : p.Small) :
    (p.bytes.length : Int) = sizeofPromiseMsg + p.valueSize := by
  rw [PromiseMsg.bytes, List.length_append, ints_length, small.fits.valueSize_eq]
  rfl

theorem batchPacket_length (batch : PromiseBatchMsg) :
    ((batchPacket batch).bytes.length : Int) = sizeofPaxosMsg + batch.bytes.length := by
  rw [PaxosMsg.bytes, List.length_append, ints_length]
  rfl

theorem batch_bytes_length (batch : PromiseBatchMsg) :
    (batch.bytes.length : Int) =
      sizeofPromiseBatchMsg + (batch.data.flatMap PromiseMsg.bytes).length := by
  rw [PromiseBatchMsg.bytes, List.length_append, ints_length]
  rfl

theorem data_length_le (data : List PromiseMsg) :
    data.length ≤ (data.flatMap PromiseMsg.bytes).length := by
  induction data with
  | nil => exact Nat.le_refl _
  | cons p data ih =>
      rw [List.flatMap_cons, List.length_append, PromiseMsg.bytes, List.length_append, ints_length]
      simp only [PromiseMsg.fields, List.length_cons, List.length_nil]
      omega

/-- A count of promises that fit in the buffer is an `int`. -/
theorem Packing.count_fits (h : Packing acceptorId old oldBytes granted done o b) :
    FitsInt32 o.promiseBatch.count := by
  have hroom := h.room
  have hlen := batch_bytes_length o.promiseBatch
  have hle := data_length_le o.promiseBatch.data
  rw [h.bufferSize, h.outboxSize] at hroom
  simp only [sizeofPaxosMsg, sizeofPromiseBatchMsg, maxUdpMsgSize] at hroom hlen
  rw [h.count_eq]
  exact ⟨by omega, by omega⟩

theorem Packing.batch_fits (h : Packing acceptorId old oldBytes granted done o b)
    (fits : FitsInt32 acceptorId) : o.promiseBatch.Fits where
  acceptorId := h.batchId ▸ fits
  count := h.count_fits
  count_eq := h.count_eq
  entries := fun p hp => (h.entries p hp).fits

/-- The count that the loop raises in place. -/
theorem Packing.get_count (h : Packing acceptorId old oldBytes granted done o b)
    {mem : Sender} {size : Int} {rest : Bytes}
    (holding : mem.Holding size sizeofPaxosMsg (o.promiseBatch.bytes ++ rest)) :
    mem.get (sizeofPaxosMsg + 4) = o.promiseBatch.count := by
  have hholds := holding.holds
  have hsplit : o.promiseBatch.bytes ++ rest = ints [o.promiseBatch.acceptorId] ++
      (ints [o.promiseBatch.count] ++ (o.promiseBatch.data.flatMap PromiseMsg.bytes ++ rest)) := by
    simp [PromiseBatchMsg.bytes, ints]
  rw [hsplit] at hholds
  have hread := hholds.right.left.intAt (by simpa using h.count_fits) 0 rfl
  have hread : intAt mem.bytes (sizeofPaxosMsg + 4) = some o.promiseBatch.count := by
    simpa using hread
  rw [Sender.get, hread]
  rfl

/-- The promise as `append` leaves it in the batch. -/
def Outbox.append (o : Outbox) (p : PromiseMsg) : Outbox :=
  { o with
    sendBufferSize := o.sendBufferSize + (sizeofPromiseMsg + p.valueSize)
    promiseBatch :=
      { o.promiseBatch with
        count := o.promiseBatch.count + 1
        data := o.promiseBatch.data ++ [p] } }

theorem append_bytes (o : Outbox) (p : PromiseMsg) :
    (o.append p).promiseBatch.bytes =
      ints [o.promiseBatch.acceptorId] ++ (ints [o.promiseBatch.count + 1] ++
        (o.promiseBatch.data.flatMap PromiseMsg.bytes ++ p.bytes)) := by
  simp [PromiseBatchMsg.bytes, Outbox.append, ints]

theorem SendBuffer.writeEntry_sent (b : SendBuffer) (p : PromiseMsg) :
    (b.writeEntry p).sent = b.sent := by
  simp only [SendBuffer.writeEntry]
  split <;> rfl

/-- A promise is written right behind the batch. -/
theorem Packing.writeEntry (h : Packing acceptorId old oldBytes granted done o b)
    {p : PromiseMsg} (small : p.Small)
    (room : sizeofPromiseMsg + p.valueSize + b.size ≤ maxUdpMsgSize) :
    (b.writeEntry p).Holding maxUdpMsgSize sizeofPaxosMsg (o.promiseBatch.bytes ++ p.bytes) := by
  have hsize : b.size = sizeofPaxosMsg + o.promiseBatch.bytes.length :=
    h.bufferSize.trans h.outboxSize
  have hvalue := small.fits.valueSize_eq
  have hentry : sizeofPromiseMsg = 16 := rfl
  have hiid := h.holding.set b.size hsize (by omega) p.iid
  have hballot := hiid.set (b.size + 4)
    (by simp only [List.length_append, ints_length, List.length_singleton]; omega)
    (by omega) p.ballot
  have hvalueBallot := hballot.set (b.size + 8)
    (by simp only [List.length_append, ints_length, List.length_singleton]; omega)
    (by omega) p.valueBallot
  have hvalueSize := hvalueBallot.set (b.size + 12)
    (by simp only [List.length_append, ints_length, List.length_singleton]; omega)
    (by omega) p.valueSize
  have hfields : o.promiseBatch.bytes ++ ints [p.iid] ++ ints [p.ballot] ++ ints [p.valueBallot] ++
      ints [p.valueSize] = o.promiseBatch.bytes ++ ints p.fields := by
    simp [PromiseMsg.fields, ints]
  rw [hfields] at hvalueSize
  have hbytes : o.promiseBatch.bytes ++ p.bytes =
      (o.promiseBatch.bytes ++ ints p.fields) ++ p.value := by
    rw [PromiseMsg.bytes, List.append_assoc]
  rw [hbytes, SendBuffer.writeEntry]
  split
  · rw [memcpy_of_length hvalue]
    refine hvalueSize.copy (b.size + sizeofPromiseMsg) ?_ (by omega)
    rw [List.length_append, ints_length]
    simp only [PromiseMsg.fields, List.length_cons, List.length_nil]
    omega
  · next hempty =>
      have hnil : p.value = [] := List.length_eq_zero_iff.mp (by omega)
      rw [hnil, List.append_nil]
      exact hvalueSize

theorem Packing.append (h : Packing acceptorId old oldBytes granted done o b) {p : PromiseMsg}
    (small : p.Small) (room : sizeofPromiseMsg + p.valueSize + b.size ≤ maxUdpMsgSize) :
    Packing acceptorId old oldBytes (granted ++ [p]) done (o.append p) (b.append p) := by
  have hentry := h.writeEntry small room
  have hcount := h.get_count hentry
  have hsplit : o.promiseBatch.bytes ++ p.bytes =
      ints [o.promiseBatch.acceptorId] ++ (ints [o.promiseBatch.count] ++
        (o.promiseBatch.data.flatMap PromiseMsg.bytes ++ p.bytes)) := by
    simp [PromiseBatchMsg.bytes, ints]
  rw [hsplit] at hentry
  have hraised := hentry.replace rfl (o.promiseBatch.count + 1)
  have hbytes : ((o.append p).promiseBatch.bytes.length : Int) =
      o.promiseBatch.bytes.length + (sizeofPromiseMsg + p.valueSize) := by
    rw [← small.bytes_length, batch_bytes_length, batch_bytes_length]
    simp [Outbox.append]
    omega
  refine
    { sent := h.sent
      sentBytes := (b.writeEntry_sent p).trans h.sentBytes
      sendable := h.sendable
      promises := ?_
      outboxId := h.outboxId
      bufferId := h.bufferId
      batchId := h.batchId
      count_eq := ?_
      entries := ?_
      outboxSize := ?_
      bufferSize := ?_
      room := ?_
      holding := ?_ }
  · rw [← h.promises, List.append_assoc]
    rfl
  · simp [Outbox.append, h.count_eq]
  · intro q hq
    cases List.mem_append.mp hq with
    | inl hold => exact h.entries q hold
    | inr hnew => exact List.mem_singleton.mp hnew ▸ small
  · rw [hbytes, ← Int.add_assoc, ← h.outboxSize]
    rfl
  · simp only [SendBuffer.append, Outbox.append, h.bufferSize]
  · simp only [SendBuffer.append]
    omega
  · simp only [SendBuffer.append, hcount]
    rw [append_bytes]
    exact hraised

/-- A flush sends what stands behind the header, whatever that is. -/
theorem SendBuffer.flush_spec {b : SendBuffer} {bs : Bytes}
    (holding : b.Holding maxUdpMsgSize sizeofPaxosMsg bs)
    (size : b.size = sizeofPaxosMsg + bs.length) (msgType : Int) :
    (b.flush msgType).sent = (ints [(bs.length : Int), msgType] ++ bs) :: b.sent ∧
      ((b.flush msgType).bytes.length : Int) = maxUdpMsgSize := by
  have hdata : b.size - sizeofPaxosMsg = bs.length := by omega
  obtain ⟨xs, hlen, hxs⟩ := Sender.Holding.filled (k := 2) holding
  match xs, hlen with
  | [x₀, x₁], _ =>
      have hmsgSize := hxs.set (k := 0) (show 0 < 2 by decide) rfl (b.size - sizeofPaxosMsg)
      have htype := hmsgSize.set (k := 1) (show 1 < 2 by decide) rfl msgType
      have hend : b.size = 4 * ([b.size - sizeofPaxosMsg, msgType].length : Int) + bs.length := by
        simp only [List.length_cons, List.length_nil]
        simp only [sizeofPaxosMsg] at size
        omega
      have hsent := htype.sent hend
      rw [hdata] at hsent
      refine ⟨?_, htype.length⟩
      simp only [SendBuffer.flush, hdata]
      exact hsent

/-- The bytes that a flush sends are those of the packet. -/
theorem Packing.flushed (h : Packing acceptorId old oldBytes granted done o b) :
    (b.flush paxosPromise).sent = (batchPacket o.promiseBatch).bytes :: b.sent ∧
      ((b.flush paxosPromise).bytes.length : Int) = maxUdpMsgSize :=
  SendBuffer.flush_spec h.holding (h.bufferSize.trans h.outboxSize) paxosPromise

theorem SendBuffer.reset_spec {b : SendBuffer} (length : (b.bytes.length : Int) = maxUdpMsgSize) :
    b.reset.Holding maxUdpMsgSize sizeofPaxosMsg (ints [b.acceptorId, 0]) := by
  obtain ⟨xs, hlen, hxs⟩ := Sender.exists_filled 4 length (show (4 : Int) * 4 ≤ 9000 by decide)
  match xs, hlen with
  | [x₀, x₁, x₂, x₃], _ =>
      have hcount := hxs.set (k := 3) (show 3 < 4 by decide) rfl 0
      have hid := hcount.set (k := 2) (show 2 < 4 by decide) rfl b.acceptorId
      exact hid.behind 2 (show 2 ≤ 4 by decide) rfl

/-- A batch that is not empty is flushed and an empty one begun. -/
theorem Packing.flush_reset (h : Packing acceptorId old oldBytes granted done o b)
    (fits : FitsInt32 acceptorId) (nonempty : o.promiseBatch.data ≠ []) :
    Packing acceptorId old oldBytes granted (done ++ [o.promiseBatch]) o.flush.reset
      (b.flush paxosPromise).reset := by
  obtain ⟨hsent, hlen⟩ := h.flushed
  have hreset := SendBuffer.reset_spec hlen
  have hid : (b.flush paxosPromise).acceptorId = acceptorId := h.bufferId
  rw [hid] at hreset
  have hsize : b.size = sizeofPaxosMsg + o.promiseBatch.bytes.length :=
    h.bufferSize.trans h.outboxSize
  refine
    { sent := ?_
      sentBytes := ?_
      sendable := ?_
      promises := ?_
      outboxId := h.outboxId
      bufferId := h.bufferId
      batchId := h.outboxId
      count_eq := rfl
      entries := fun p hp => by cases hp
      outboxSize := rfl
      bufferSize := rfl
      room := show (16 : Int) ≤ 9000 by decide
      holding := ?_ }
  · have hpacket : o.flush.sent = batchPacket o.promiseBatch :: o.sent := by
      simp only [Outbox.flush, batchPacket, h.outboxSize]
      congr 2
      omega
    have hold : o.flush.reset.sent = o.flush.sent := rfl
    rw [hold, hpacket, h.sent]
    simp
  · have hold : (b.flush paxosPromise).reset.sent = (b.flush paxosPromise).sent := rfl
    rw [hold, hsent, h.sentBytes]
    simp
  · intro batch hbatch
    cases List.mem_append.mp hbatch with
    | inl hdone => exact h.sendable batch hdone
    | inr hnew =>
        rw [List.mem_singleton.mp hnew]
        refine ⟨h.batch_fits fits, h.batchId, nonempty, ?_⟩
        rw [batchPacket_length, ← hsize]
        exact h.room
  · rw [← h.promises]
    simp [Outbox.flush, Outbox.reset]
  · have hbytes : o.flush.reset.promiseBatch.bytes = ints [acceptorId, 0] := by
      simp [Outbox.flush, Outbox.reset, PromiseBatchMsg.bytes, h.outboxId]
    rw [hbytes]
    exact hreset

/-- A promise that an acceptor grants always finds room in an empty batch. -/
theorem Packing.addPromise (h : Packing acceptorId old oldBytes granted done o b)
    (fits : FitsInt32 acceptorId) {p : PromiseMsg} (small : p.Small) :
    ∃ done', Packing acceptorId old oldBytes (granted ++ [p]) done' (o.addPromise p)
      (b.addPromise p) := by
  have hsmall := small.valueSize_le
  have hsize : b.size = sizeofPaxosMsg + o.promiseBatch.bytes.length :=
    h.bufferSize.trans h.outboxSize
  have hpos : b.size ≠ 0 := by
    rw [hsize]
    exact Int.ne_of_gt (Int.add_pos_of_pos_of_nonneg (by decide) (by omega))
  have hflushed : o.flush.sendBufferSize = 0 := rfl
  have hflushed' : (b.flush paxosPromise).size = 0 := rfl
  by_cases hfull : sizeofPromiseMsg + p.valueSize + b.size > maxUdpMsgSize
  · have hnonempty : o.promiseBatch.data ≠ [] := by
      intro hempty
      have hlen := batch_bytes_length o.promiseBatch
      rw [hempty, List.flatMap_nil, List.length_nil] at hlen
      simp only [sizeofPromiseMsg, sizeofPaxosMsg, sizeofPromiseBatchMsg, maxUdpMsgSize,
        paxosMaxValueSize] at hfull hlen hsize hsmall
      omega
    have hreset := h.flush_reset fits hnonempty
    have hroom : sizeofPromiseMsg + p.valueSize + (b.flush paxosPromise).reset.size ≤
        maxUdpMsgSize := by
      have hstart : (b.flush paxosPromise).reset.size = 16 := rfl
      simp only [sizeofPromiseMsg, maxUdpMsgSize, paxosMaxValueSize, hstart] at hsmall ⊢
      omega
    refine ⟨done ++ [o.promiseBatch], ?_⟩
    have hout : o.addPromise p = o.flush.reset.append p := by
      rw [h.bufferSize] at hfull
      simp only [Outbox.addPromise, Outbox.makeRoom, if_pos hfull, if_pos hflushed]
      rfl
    have hbuf : b.addPromise p = (b.flush paxosPromise).reset.append p := by
      simp only [SendBuffer.addPromise, SendBuffer.makeRoom, if_pos hfull, if_pos hflushed']
    rw [hout, hbuf]
    exact hreset.append small hroom
  · refine ⟨done, ?_⟩
    have hout : o.addPromise p = o.append p := by
      rw [h.bufferSize] at hfull hpos
      simp only [Outbox.addPromise, Outbox.makeRoom, if_neg hfull, if_neg hpos]
      rfl
    have hbuf : b.addPromise p = b.append p := by
      simp only [SendBuffer.addPromise, SendBuffer.makeRoom, if_neg hfull, if_neg hpos]
    rw [hout, hbuf]
    exact h.append small (Int.not_lt.mp hfull)

theorem Packing.addPromises (h : Packing acceptorId old oldBytes granted done o b)
    (fits : FitsInt32 acceptorId) {ps : List PromiseMsg} (small : ∀ p ∈ ps, p.Small) :
    ∃ done', Packing acceptorId old oldBytes (granted ++ ps) done'
      (ps.foldl Outbox.addPromise o) (ps.foldl SendBuffer.addPromise b) := by
  induction ps generalizing granted done o b with
  | nil =>
      rw [List.append_nil]
      exact ⟨done, h⟩
  | cons p ps ih =>
      obtain ⟨done', hp⟩ := h.addPromise fits (small p List.mem_cons_self)
      have hrest := ih hp fun q hq => small q (List.mem_cons_of_mem p hq)
      rwa [List.append_assoc] at hrest

/-- Both sides begin with an empty batch. -/
theorem Packing.start (ids : o.acceptorId = b.acceptorId)
    (length : (b.bytes.length : Int) = maxUdpMsgSize) :
    Packing b.acceptorId o.sent b.sent [] [] o.reset b.reset := by
  have hreset := SendBuffer.reset_spec length
  have hbytes : o.reset.promiseBatch.bytes = ints [b.acceptorId, 0] := by
    simp [Outbox.reset, PromiseBatchMsg.bytes, ids]
  exact
    { sent := rfl
      sentBytes := rfl
      sendable := fun _ h => by cases h
      promises := rfl
      outboxId := ids
      bufferId := rfl
      batchId := ids
      count_eq := rfl
      entries := fun _ h => by cases h
      outboxSize := rfl
      bufferSize := rfl
      room := show (16 : Int) ≤ 9000 by decide
      holding := hbytes ▸ hreset }

end Packing

/-- `handle_prepare_batch` on the outbox, given what it grants. -/
def Outbox.sendBatch (o : Outbox) (granted : List PromiseMsg) : Outbox :=
  let o := granted.foldl addPromise o.reset
  if o.promiseBatch.count > 0 then o.flush else o

/-- The promises go out in batches that the bytes spell, each of them once and in order. -/
theorem sendBatch_spec {o : Outbox} {b : SendBuffer} (ids : o.acceptorId = b.acceptorId)
    (fits : FitsInt32 b.acceptorId) (length : (b.bytes.length : Int) = maxUdpMsgSize)
    {granted : List PromiseMsg} (small : ∀ p ∈ granted, p.Small) :
    ∃ batches : List PromiseBatchMsg,
      (o.sendBatch granted).sent = (batches.map batchPacket).reverse ++ o.sent ∧
      (b.sendBatch granted).sent =
        (batches.map fun batch => (batchPacket batch).bytes).reverse ++ b.sent ∧
      (∀ batch ∈ batches, batch.Sendable b.acceptorId) ∧
      batches.flatMap PromiseBatchMsg.data = granted := by
  obtain ⟨done, h⟩ := (Packing.start ids length).addPromises fits small
  rw [List.nil_append] at h
  have hcount := h.count_eq
  have hholding := h.holding
  rw [← List.append_nil (PromiseBatchMsg.bytes _)] at hholding
  have hread := h.get_count hholding
  simp only [Outbox.sendBatch, SendBuffer.sendBatch, hread]
  split
  · next hpos =>
      have hnonempty : (granted.foldl Outbox.addPromise o.reset).promiseBatch.data ≠ [] := by
        intro hempty
        rw [hcount, hempty] at hpos
        exact absurd hpos (by decide)
      have hlast := h.flush_reset fits hnonempty
      have hpromises := hlast.promises
      have hdata : (granted.foldl Outbox.addPromise o.reset).flush.reset.promiseBatch.data = [] :=
        rfl
      rw [hdata, List.append_nil] at hpromises
      exact ⟨_, hlast.sent, hlast.sentBytes, hlast.sendable, hpromises⟩
  · next hzero =>
      have hempty : (granted.foldl Outbox.addPromise o.reset).promiseBatch.data = [] :=
        List.length_eq_zero_iff.mp (by omega)
      have hpromises := h.promises
      rw [hempty, List.append_nil] at hpromises
      exact ⟨done, h.sent, h.sentBytes, h.sendable, hpromises⟩

end LibFastPaxos
