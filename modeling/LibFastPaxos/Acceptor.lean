import LibFastPaxos.Messages
import Mathlib.Logic.Function.Basic

/-!
The acceptor of acceptor.c with the disk helpers of acceptor_disk_helpers.c.

Berkeley DB and `malloc` are outside the repository. The store is a map from
record numbers, and `DiskEnv` says what the environment answers at each disk
operation and which bytes an uninitialised record holds, so that a theorem for
every `DiskEnv` covers every pattern of failures and leftovers. The `trace`
records, newest first, the disk operations, the datagrams and the debug lines
"Promise ... added to buffer", "Accept ... applied" and "Anyval ... applied".
-/

namespace LibFastPaxos

structure AcceptorRecord where
  iid : Int
  proposerId : Int
  ballot : Int
  valueBallot : Int
  valueSize : Int
  anyEnabled : Bool
  value : Option Bytes
  deriving DecidableEq, Repr

/-- The flattened image on disk; it carries neither `proposer_id` nor `any_enabled`. -/
structure FlatRecord where
  iid : Int
  ballot : Int
  valueBallot : Int
  valueSize : Int
  value : Bytes
  deriving DecidableEq, Repr

/-- The debug lines that say what the acceptor did for an instance. -/
inductive LogLine where
  | promised (promise : PromiseMsg)
  | acceptApplied (amsg : AcceptMsg)
  | anyvalApplied (iid ballot : Int)
  deriving DecidableEq, Repr

inductive Effect where
  | get (iid : Int)
  | put (flat : FlatRecord) (ret : Int)
  | sync (ret : Int)
  | log (line : LogLine)
  | send (msg : PaxosMsg)
  deriving DecidableEq, Repr

/-- Answers of the environment, indexed by the length of the trace so far. -/
structure DiskEnv where
  putRet : Nat → Int
  syncRet : Nat → Int
  uninitProposerId : Nat → Int
  uninitAnyEnabled : Nat → Bool

def DiskEnv.PutsSucceed (env : DiskEnv) : Prop := ∀ n, env.putRet n = 0

/-- A disk on which nothing fails and the leftovers are zero. -/
def quietDisk : DiskEnv where
  putRet := fun _ => 0
  syncRet := fun _ => 0
  uninitProposerId := fun _ => 0
  uninitAnyEnabled := fun _ => false

theorem quietDisk_putsSucceed : quietDisk.PutsSucceed := fun _ => rfl

structure AcceptorState where
  acceptorId : Int
  acceptorArray : Nat → AcceptorRecord
  accDb : Int → Option FlatRecord
  sendBufferSize : Int
  promiseBatch : PromiseBatchMsg
  trace : List Effect

/-- Where a handler's `rec` points: into `acceptor_array` or to a heap copy. -/
inductive RecordPtr where
  | slot (k : Nat)
  | heap

namespace AcceptorState

def emit (s : AcceptorState) (e : Effect) : AcceptorState :=
  { s with trace := e :: s.trace }

def writeDb (s : AcceptorState) (recno : Int) (flat : FlatRecord) : AcceptorState :=
  { s with accDb := Function.update s.accDb recno (some flat) }

def store (s : AcceptorState) (r : AcceptorRecord) : RecordPtr → AcceptorState
  | .slot k => { s with acceptorArray := Function.update s.acceptorArray k r }
  | .heap => s

end AcceptorState

def flatten (r : AcceptorRecord) : FlatRecord where
  iid := r.iid
  ballot := r.ballot
  valueBallot := r.valueBallot
  valueSize := r.valueSize
  value := memcpy (r.value.getD []) r.valueSize

/-- `&acceptor_array[GET_ACC_INDEX(iid)]`. -/
def AcceptorState.slot (s : AcceptorState) (cfg : Config) (iid : Int) : AcceptorRecord :=
  s.acceptorArray (cfg.acceptorArraySize.index iid)

section Handlers

variable (cfg : Config) (env : DiskEnv)

/-! ### acceptor_disk_helpers.c -/

def diskForceSyncrony (s : AcceptorState) : AcceptorState :=
  if cfg.paxosAcceptorForceDiskFlush then s.emit (.sync (env.syncRet s.trace.length)) else s

def diskUpdateRecord (s : AcceptorState) (r : AcceptorRecord) : AcceptorState :=
  let ret := env.putRet s.trace.length
  let s := s.emit (.put (flatten r) ret)
  if ret ≠ 0 then s
  else diskForceSyncrony cfg env (s.writeDb (r.iid + 1) (flatten r))

/-- The returned record has its `proposer_id` and `any_enabled` uninitialised. -/
def diskLookupRecord (s : AcceptorState) (instanceId : Int) :
    AcceptorState × Option AcceptorRecord :=
  (s.emit (.get instanceId),
    (s.accDb (instanceId + 1)).map fun flat =>
      { iid := flat.iid
        proposerId := env.uninitProposerId s.trace.length
        ballot := flat.ballot
        valueBallot := flat.valueBallot
        valueSize := flat.valueSize
        anyEnabled := env.uninitAnyEnabled s.trace.length
        value := some (memcpy flat.value flat.valueSize) })

/-! ### acceptor.c -/

/-- `flush_send_buffer` for the promise batch held in `send_buffer`. -/
def flushSendBuffer (s : AcceptorState) : AcceptorState :=
  let msg : PaxosMsg :=
    { size := s.sendBufferSize - sizeofPaxosMsg, data := .promise s.promiseBatch }
  { s with sendBufferSize := 0 }.emit (.send msg)

def resetPromiseBatch (s : AcceptorState) : AcceptorState :=
  { s with
    sendBufferSize := sizeofPaxosMsg + sizeofPromiseBatchMsg
    promiseBatch := { acceptorId := s.acceptorId, count := 0, data := [] } }

def promiseOf (r : AcceptorRecord) : PromiseMsg where
  iid := r.iid
  ballot := r.ballot
  valueBallot := r.valueBallot
  valueSize := r.valueSize
  value := if r.valueSize > 0 then memcpy (r.value.getD []) r.valueSize else []

/-- Flush when the promise does not fit; start a batch when the buffer is empty. -/
def makeRoom (s : AcceptorState) (promiseSize : Int) : AcceptorState :=
  let s :=
    if promiseSize + s.sendBufferSize > maxUdpMsgSize then
      flushSendBuffer (diskForceSyncrony cfg env s)
    else s
  if s.sendBufferSize = 0 then resetPromiseBatch s else s

def appendPromise (s : AcceptorState) (r : AcceptorRecord) : AcceptorState :=
  { s with
    sendBufferSize := s.sendBufferSize + (sizeofPromiseMsg + r.valueSize)
    promiseBatch :=
      { s.promiseBatch with
        count := s.promiseBatch.count + 1
        data := s.promiseBatch.data ++ [promiseOf r] } }

def addPromiseToSendBuffer (s : AcceptorState) (r : AcceptorRecord) : AcceptorState :=
  (appendPromise (makeRoom cfg env s (sizeofPromiseMsg + r.valueSize)) r).emit
    (.log (.promised (promiseOf r)))

def handlePrepare (s : AcceptorState) (msg : PrepareMsg) : AcceptorState :=
  let k := cfg.acceptorArraySize.index msg.iid
  let r := s.slot cfg msg.iid
  if msg.iid > r.iid then
    -- a new instance takes the slot over; `any_enabled` and `proposer_id` stay
    let r := { r with
      iid := msg.iid, ballot := msg.ballot, valueBallot := -1, valueSize := 0, value := none }
    addPromiseToSendBuffer cfg env (diskUpdateRecord cfg env (s.store r (.slot k)) r) r
  else if msg.iid = r.iid then
    if msg.ballot ≤ r.ballot then s
    else
      let r := { r with ballot := msg.ballot }
      addPromiseToSendBuffer cfg env (diskUpdateRecord cfg env (s.store r (.slot k)) r) r
  else
    let (s, found) := diskLookupRecord env s msg.iid
    let r := found.getD
      { iid := msg.iid, ballot := -1, valueBallot := -1, valueSize := 0, value := none
        -- uninitialised in the source and not read before the record is freed
        proposerId := 0, anyEnabled := false }
    if msg.ballot > r.ballot then
      let r := { r with ballot := msg.ballot }
      addPromiseToSendBuffer cfg env (diskUpdateRecord cfg env s r) r
    else s

def handlePrepareBatch (s : AcceptorState) (bmsg : PrepareBatchMsg) : AcceptorState :=
  let s := (bmsg.data.take bmsg.count.toNat).foldl (handlePrepare cfg env) (resetPromiseBatch s)
  if s.promiseBatch.count > 0 then flushSendBuffer (diskForceSyncrony cfg env s) else s

def applyAccept (s : AcceptorState) (ptr : RecordPtr) (r : AcceptorRecord) (amsg : AcceptMsg) :
    AcceptorState × AcceptorRecord :=
  let r := { r with
    iid := amsg.iid
    ballot := amsg.ballot
    valueBallot := amsg.ballot
    proposerId := amsg.proposerId
    value := some (memcpy amsg.value amsg.valueSize)
    valueSize := amsg.valueSize }
  let s := diskForceSyncrony cfg env (diskUpdateRecord cfg env (s.store r ptr) r)
  (s.emit (.log (.acceptApplied amsg)), r)

def applyAnyval (s : AcceptorState) (ptr : RecordPtr) (r : AcceptorRecord) (iid ballot : Int) :
    AcceptorState :=
  let r := { r with
    iid := iid
    ballot := ballot
    valueBallot := -1
    proposerId := -1
    value := none
    valueSize := 0
    anyEnabled := true }
  (diskUpdateRecord cfg env (s.store r ptr) r).emit (.log (.anyvalApplied iid ballot))

def learnOf (acceptorId : Int) (r : AcceptorRecord) : LearnMsg where
  acceptorId := acceptorId
  iid := r.iid
  proposerId := r.proposerId
  ballot := r.ballot
  valueSize := r.valueSize
  value := memcpy (r.value.getD []) r.valueSize

/-- The learn is built in `send_buffer`, over whatever promises were left there. -/
def sendLearnMessage (s : AcceptorState) (r : AcceptorRecord) : AcceptorState :=
  { s with
    sendBufferSize := 0
    promiseBatch := { acceptorId := s.acceptorId, count := 0, data := [] } }.emit
    (.send { size := sizeofLearnMsg + r.valueSize, data := .learn (learnOf s.acceptorId r) })

/-- The test of `handle_accept` on a record found in the slot or on disk. -/
def acceptAllowed (r : AcceptorRecord) (ballot : Int) : Bool :=
  r.anyEnabled || (decide (ballot ≥ r.ballot) && decide (ballot ≥ cfg.minBallot))

def handleAccept (s : AcceptorState) (amsg : AcceptMsg) : AcceptorState :=
  let k := cfg.acceptorArraySize.index amsg.iid
  let r := s.slot cfg amsg.iid
  if amsg.iid = r.iid then
    if acceptAllowed cfg r amsg.ballot then
      let (s, r) := applyAccept cfg env s (.slot k) { r with anyEnabled := false } amsg
      sendLearnMessage s r
    else s
  else if amsg.iid > r.iid then
    if amsg.ballot ≥ cfg.minBallot then
      -- `any_enabled` of the evicted instance stays in the slot
      let (s, r) := applyAccept cfg env s (.slot k) r amsg
      sendLearnMessage s r
    else s
  else
    match diskLookupRecord env s amsg.iid with
    | (s, none) =>
        if amsg.ballot ≥ cfg.minBallot then
          let (s, r) := applyAccept cfg env s .heap
            { iid := 0, proposerId := 0, ballot := 0, valueBallot := 0, valueSize := 0,
              anyEnabled := false, value := none } amsg
          sendLearnMessage s r
        else s
    | (s, some r) =>
        if acceptAllowed cfg r amsg.ballot then
          let (s, r) := applyAccept cfg env s .heap { r with anyEnabled := false } amsg
          sendLearnMessage s r
        else s

def handleLsync (s : AcceptorState) (instanceId : Int) : AcceptorState :=
  let r := s.slot cfg instanceId
  if instanceId = r.iid then
    if r.value.isSome then sendLearnMessage s r else s
  else if instanceId < r.iid then
    match diskLookupRecord env s instanceId with
    | (s, some r) => sendLearnMessage s r
    | (s, none) => s
  else s

def handleBatchLsync (s : AcceptorState) (lsmsg : LearnerSyncMsg) : AcceptorState :=
  (lsmsg.ids.take lsmsg.count.toNat).foldl (handleLsync cfg env) s

/-- The test of `handle_anyval` on a record found in the slot or on disk. -/
def anyvalAllowed (r : AcceptorRecord) (ballot : Int) : Bool :=
  r.anyEnabled || decide (ballot ≥ r.ballot)

/-- `none` is the access through the NULL record of a failed lookup. -/
def handleAnyval (s : AcceptorState) (iid ballot : Int) : Option AcceptorState :=
  let k := cfg.acceptorArraySize.index iid
  let r := s.slot cfg iid
  if iid = r.iid then
    if anyvalAllowed r ballot then some (applyAnyval cfg env s (.slot k) r iid ballot)
    else some s
  else if iid > r.iid then some (applyAnyval cfg env s (.slot k) r iid ballot)
  else
    match diskLookupRecord env s iid with
    | (_, none) => none
    | (s, some r) =>
        if anyvalAllowed r ballot then some (applyAnyval cfg env s .heap r iid ballot)
        else some s

def handleBatchAnyval (s : AcceptorState) (avmsg : AnyvalMsg) : Option AcceptorState :=
  (avmsg.ids.take avmsg.count.toNat).foldlM (fun s iid => handleAnyval cfg env s iid avmsg.ballot) s

def handleMessage (s : AcceptorState) (msg : PaxosMsg) : Option AcceptorState :=
  match msg.data with
  | .prepare bmsg => some (handlePrepareBatch cfg env s bmsg)
  | .accept amsg => some (handleAccept cfg env s amsg)
  | .lsync lsmsg => some (handleBatchLsync cfg env s lsmsg)
  | .anyval avmsg => handleBatchAnyval cfg env s avmsg
  | .promise _ | .learn _ => some s

end Handlers

/-- The state `acceptor_start` leaves: an empty store and an array that holds no instance. -/
def acceptorStart (id : Int) : AcceptorState where
  acceptorId := id
  acceptorArray := fun _ =>
    { iid := -1, proposerId := 0, ballot := -1, valueBallot := 0, valueSize := 0,
      anyEnabled := false, value := none }
  accDb := fun _ => none
  sendBufferSize := 0
  promiseBatch := { acceptorId := 0, count := 0, data := [] }
  trace := []

def Effect.sent? : Effect → Option PaxosMsg
  | .send m => some m
  | _ => none

def Effect.logged? : Effect → Option LogLine
  | .log line => some line
  | _ => none

/-- Datagrams sent so far, newest first. -/
def AcceptorState.sent (s : AcceptorState) : List PaxosMsg := s.trace.filterMap Effect.sent?

/-- Debug lines so far, newest first. -/
def AcceptorState.log (s : AcceptorState) : List LogLine := s.trace.filterMap Effect.logged?

end LibFastPaxos
