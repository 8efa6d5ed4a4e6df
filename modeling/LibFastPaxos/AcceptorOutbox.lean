import LibFastPaxos.AcceptorHandlers

/-!
The datagram side of an acceptor by itself. Promises are packed into a batch
that goes out when it is full or the prepare batch ends, a learn goes out at
once, and everything else a handler does leaves this side alone.
-/

namespace LibFastPaxos

/-- The datagram side of an acceptor. -/
structure Outbox where
  acceptorId : Int
  sendBufferSize : Int
  promiseBatch : PromiseBatchMsg
  sent : List PaxosMsg

namespace Outbox

def flush (o : Outbox) : Outbox :=
  { o with
    sendBufferSize := 0
    sent := { size := o.sendBufferSize - sizeofPaxosMsg, data := .promise o.promiseBatch } ::
      o.sent }

def reset (o : Outbox) : Outbox :=
  { o with
    sendBufferSize := sizeofPaxosMsg + sizeofPromiseBatchMsg
    promiseBatch := { acceptorId := o.acceptorId, count := 0, data := [] } }

def makeRoom (o : Outbox) (promiseSize : Int) : Outbox :=
  let o := if promiseSize + o.sendBufferSize > maxUdpMsgSize then o.flush else o
  if o.sendBufferSize = 0 then o.reset else o

def addPromise (o : Outbox) (p : PromiseMsg) : Outbox :=
  let o := o.makeRoom (sizeofPromiseMsg + p.valueSize)
  { o with
    sendBufferSize := o.sendBufferSize + (sizeofPromiseMsg + p.valueSize)
    promiseBatch :=
      { o.promiseBatch with
        count := o.promiseBatch.count + 1
        data := o.promiseBatch.data ++ [p] } }

def sendLearn (o : Outbox) (packet : PaxosMsg) : Outbox :=
  { o with
    sendBufferSize := 0
    promiseBatch := { acceptorId := o.acceptorId, count := 0, data := [] }
    sent := packet :: o.sent }

end Outbox

def AcceptorState.out (s : AcceptorState) : Outbox where
  acceptorId := s.acceptorId
  sendBufferSize := s.sendBufferSize
  promiseBatch := s.promiseBatch
  sent := s.sent

section Outbox

variable (cfg : Config) (env : DiskEnv) (s : AcceptorState) (r : AcceptorRecord)

theorem emit_out {e : Effect} (silent : e.sent? = none) : (s.emit e).out = s.out := by
  simp [AcceptorState.out, silent, AcceptorState.emit, AcceptorState.sent]

theorem diskForceSyncrony_out : (diskForceSyncrony cfg env s).out = s.out := by
  simp only [diskForceSyncrony]
  split
  · exact emit_out s rfl
  · rfl

theorem diskUpdateRecord_out : (diskUpdateRecord cfg env s r).out = s.out := by
  simp only [diskUpdateRecord]
  split
  · exact emit_out s rfl
  · rw [diskForceSyncrony_out]
    exact emit_out s rfl

theorem consult_out (iid : Int) : (s.consult cfg iid).out = s.out := by
  simp only [AcceptorState.consult]
  split
  · exact emit_out s rfl
  · rfl

theorem writeBack_out (iid : Int) : (writeBack cfg env s iid r).out = s.out := by
  rw [writeBack, diskUpdateRecord_out, ← consult_out cfg s iid]
  cases recordPtr cfg s iid <;> rfl

theorem flushSendBuffer_out : (flushSendBuffer s).out = s.out.flush := rfl

theorem resetPromiseBatch_out : (resetPromiseBatch s).out = s.out.reset := rfl

theorem makeRoom_out (promiseSize : Int) :
    (makeRoom cfg env s promiseSize).out = s.out.makeRoom promiseSize := by
  have hsize : ∀ t : AcceptorState, t.sendBufferSize = t.out.sendBufferSize := fun _ => rfl
  have hreset : ∀ t : AcceptorState,
      (if t.sendBufferSize = 0 then resetPromiseBatch t else t).out =
        if t.out.sendBufferSize = 0 then t.out.reset else t.out := by
    intro t
    rw [apply_ite AcceptorState.out, hsize t]
    rfl
  simp only [makeRoom, Outbox.makeRoom]
  rw [hreset, hsize s]
  split
  · rw [flushSendBuffer_out, diskForceSyncrony_out]
  · rfl

theorem addPromiseToSendBuffer_out :
    (addPromiseToSendBuffer cfg env s r).out = s.out.addPromise (promiseOf r) := by
  have hroom := makeRoom_out cfg env s (sizeofPromiseMsg + r.valueSize)
  simp only [addPromiseToSendBuffer]
  rw [emit_out _ rfl]
  simp only [Outbox.addPromise]
  have hvs : (promiseOf r).valueSize = r.valueSize := rfl
  rw [hvs, ← hroom]
  rfl

theorem sendLearnMessage_out :
    (sendLearnMessage s r).out = s.out.sendLearn (learnPacket s.acceptorId r) := rfl

end Outbox

end LibFastPaxos
