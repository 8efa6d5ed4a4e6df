import LibFastPaxos.Messages
import Mathlib.Logic.Function.Basic

/-!
The leader of leader.c: phase 1 over a window of instances, the promises it
stores, the phase 2 it starts for every instance that reaches a quorum, and its
two timers. `leader_send_buffer` is one buffer; every use of it starts by
emptying it for one type of message, so the model keeps the prepare batch and
the anyval message apart. Sockets and timer registration are left out: a timer
is a step that may be taken at any time.
-/

namespace LibFastPaxos

inductive StatusFlag where
  | p1New
  | p1Pending
  | p1Ready
  | p1Finished
  deriving DecidableEq, Repr

structure PromiseInfo where
  iid : Int
  valueBallot : Int
  valueSize : Int
  value : Option Bytes
  deriving DecidableEq, Repr

structure ProposerRecord where
  iid : Int
  ballot : Int
  status : StatusFlag
  promiseCount : Int
  promises : Nat → PromiseInfo

structure Phase1Info where
  pendingCount : Int
  readyCount : Int
  highestReady : Int
  firstToCheck : Int
  lastToCheck : Int
  deriving DecidableEq, Repr

structure LeaderState where
  proposerId : Int
  currentIid : Int
  p1info : Phase1Info
  /-- `p2info.current_iid`. -/
  p2CurrentIid : Int
  proposerArray : Nat → ProposerRecord
  msgSize : Int
  prepares : PrepareBatchMsg
  anymsg : AnyvalMsg
  sent : List PaxosMsg

/-- The ids of a C loop `for (i = first; i <= last; i++)` that comes to its end: with `last`
at `INT_MAX` it does not. -/
def idsFromTo (first last : Int) : List Int :=
  (List.range (last - first + 1).toNat).map fun (n : Nat) => first + n

theorem mem_idsFromTo {first last i : Int} : i ∈ idsFromTo first last ↔ first ≤ i ∧ i ≤ last := by
  simp only [idsFromTo, List.mem_map, List.mem_range]
  constructor
  · intro ⟨n, hn, h⟩
    omega
  · intro ⟨h, h'⟩
    exact ⟨(i - first).toNat, by omega, by omega⟩

namespace LeaderState

/-- `&proposer_array[GET_PRO_INDEX(iid)]`. -/
def slot (s : LeaderState) (cfg : Config) (iid : Int) : ProposerRecord :=
  s.proposerArray (cfg.proposerArraySize.index iid)

def setSlot (s : LeaderState) (cfg : Config) (iid : Int) (r : ProposerRecord) : LeaderState :=
  { s with
    proposerArray := Function.update s.proposerArray (cfg.proposerArraySize.index iid) r }

def send (s : LeaderState) (packet : PaxosMsg) : LeaderState :=
  { s with sent := packet :: s.sent }

/-- `flush_send_buffer` on a prepare batch. -/
def flushPrepares (s : LeaderState) : LeaderState :=
  s.send { size := s.msgSize, data := .prepare s.prepares }

/-- `flush_send_buffer` on an anyval message. -/
def flushAnymsg (s : LeaderState) : LeaderState :=
  s.send { size := s.msgSize, data := .anyval s.anymsg }

def initPrepares (s : LeaderState) : LeaderState :=
  { s with msgSize := sizeofPrepareBatchMsg, prepares := { count := 0, data := [] } }

def initAnymsg (s : LeaderState) : LeaderState :=
  { s with msgSize := sizeofAnyvalMsg, anymsg := { ballot := -1, count := 0, ids := [] } }

end LeaderState

def clearedPromise : PromiseInfo where
  iid := -1
  valueBallot := -1
  valueSize := 0
  value := none

/-- The loop that resets the promises of a record before a new prepare. -/
def ProposerRecord.clearPromises (r : ProposerRecord) : ProposerRecord :=
  { r with promiseCount := 0, promises := fun _ => clearedPromise }

section Handlers

variable (cfg : Config)

def addPrepareToBuffer (s : LeaderState) (iid ballot : Int) : LeaderState :=
  let s := { s with
    prepares :=
      { count := s.prepares.count + 1, data := s.prepares.data ++ [⟨iid, ballot⟩] }
    msgSize := s.msgSize + sizeofPrepareMsg }
  if s.msgSize + sizeofPaxosMsg + sizeofPrepareMsg > maxUdpMsgSize then
    s.flushPrepares.initPrepares
  else s

/-- The body of the loop of `execute_phase1`. -/
def openInstance (s : LeaderState) (i : Int) : LeaderState :=
  let r := s.slot cfg i
  if r.iid < i ∨ r.status = .p1New then
    let r := { r with
      iid := i, status := .p1Pending, ballot := cfg.firstBallot s.proposerId }.clearPromises
    let s := { s with p1info := { s.p1info with pendingCount := s.p1info.pendingCount + 1 } }
    addPrepareToBuffer (s.setSlot cfg i r) r.iid r.ballot
  else s

def executePhase1 (s : LeaderState) : LeaderState :=
  let start := s.p1info.highestReady + 1
  let stop := start + cfg.proposerPreexecWinSize
  let s := (idsFromTo start stop).foldl (openInstance cfg) s
  let s :=
    if s.p1info.lastToCheck < stop then { s with p1info := { s.p1info with lastToCheck := stop } }
    else s
  let s :=
    if s.p1info.firstToCheck > start then
      { s with p1info := { s.p1info with firstToCheck := start } }
    else s
  if s.prepares.count > 0 then s.flushPrepares else s

/-- The body of the loop of `phase1_check_cb`. -/
def retryInstance (s : LeaderState) (i : Int) : LeaderState :=
  let r := s.slot cfg i
  if r.iid = i ∧ r.status = .p1Pending then
    let r := { r with ballot := cfg.ballotNext r.ballot }.clearPromises
    addPrepareToBuffer (s.setSlot cfg i r) r.iid r.ballot
  else s

def phase1CheckCb (s : LeaderState) : LeaderState :=
  let s := (idsFromTo s.p1info.firstToCheck s.p1info.lastToCheck).foldl (retryInstance cfg)
    s.initPrepares
  let s :=
    if s.p1info.pendingCount + s.p1info.readyCount < cfg.proposerPreexecWinSize / 2 then
      executePhase1 cfg s
    else s
  -- what `execute_phase1` has flushed is still in the buffer and goes out again
  if s.prepares.count > 0 then s.flushPrepares else s

/-- Returns 1 when the promise completes a quorum. -/
def handlePromise (s : LeaderState) (prom : PromiseMsg) (acceptorId : Int) : LeaderState × Int :=
  let r := s.slot cfg prom.iid
  if r.iid ≠ prom.iid then (s, 0)
  else if r.status ≠ .p1Pending then (s, 0)
  else if r.ballot ≠ prom.ballot then (s, 0)
  else if (r.promises acceptorId.toNat).iid ≠ -1 ∧ r.ballot = prom.ballot then (s, 0)
  else
    let info := r.promises acceptorId.toNat
    let info := { info with iid := prom.iid, valueBallot := prom.valueBallot }
    let info :=
      if prom.valueBallot ≠ -1 then
        { info with
          value := some (memcpy prom.value prom.valueSize), valueSize := prom.valueSize }
      else info
    let r := { r with
      promises := Function.update r.promises acceptorId.toNat info
      promiseCount := r.promiseCount + 1 }
    if r.promiseCount < cfg.quorum then (s.setSlot cfg prom.iid r, 0)
    else
      let p1info := s.p1info
      let p1info := { p1info with
        pendingCount := p1info.pendingCount - 1
        readyCount := p1info.readyCount + 1
        highestReady := if p1info.highestReady < r.iid then r.iid else p1info.highestReady
        firstToCheck := if p1info.firstToCheck > r.iid then r.iid else p1info.firstToCheck
        lastToCheck := if p1info.lastToCheck < r.iid then r.iid else p1info.lastToCheck }
      ({ s.setSlot cfg prom.iid { r with status := .p1Ready } with p1info := p1info }, 1)

/-- The body of the loop of `phase2_value`; the pair is `max_ballot` and `pi`. -/
def scanPromise (r : ProposerRecord) (found : Int × Option PromiseInfo) (i : Nat) :
    Int × Option PromiseInfo :=
  let info := r.promises i
  if info.iid = -1 then found
  else if info.valueBallot ≠ -1 then
    if info.valueBallot > found.1 then (info.valueBallot, some info) else found
  else found

def phase2Value (r : ProposerRecord) : Option PromiseInfo :=
  ((List.range cfg.nOfAcceptors).foldl (scanPromise r) (-1, none)).2

def appendAnymsgToBuffer (s : LeaderState) (iid : Int) : LeaderState :=
  let s := { s with
    anymsg := { s.anymsg with count := s.anymsg.count + 1, ids := s.anymsg.ids ++ [iid] }
    msgSize := s.msgSize + sizeofInt }
  if s.msgSize + sizeofPaxosMsg + sizeofInt > maxUdpMsgSize then s.flushAnymsg.initAnymsg else s

def acceptOf (r : ProposerRecord) (pi : PromiseInfo) : AcceptMsg where
  iid := r.iid
  ballot := r.ballot
  valueSize := pi.valueSize
  proposerId := cfg.valueOwner pi.valueBallot
  value := memcpy (pi.value.getD []) pi.valueSize

def sendAccept (s : LeaderState) (r : ProposerRecord) (pi : PromiseInfo) : LeaderState :=
  s.send { size := sizeofAcceptMsg + pi.valueSize, data := .accept (acceptOf cfg r pi) }

/-- The body of the loop of `execute_phase2`. -/
def phase2Instance (s : LeaderState) (i : Int) : LeaderState :=
  let r := s.slot cfg i
  if r.status ≠ .p1Ready then s
  else
    let s := match phase2Value cfg r with
      | none =>
          let s := if r.ballot > s.anymsg.ballot then
              { s with anymsg := { s.anymsg with ballot := r.ballot } }
            else s
          appendAnymsgToBuffer s i
      | some pi => sendAccept cfg s r pi
    s.setSlot cfg i { r with status := .p1Finished }

def executePhase2 (s : LeaderState) (firstIid lastIid : Int) : LeaderState :=
  let s := (idsFromTo firstIid lastIid).foldl (phase2Instance cfg) s.initAnymsg
  if s.anymsg.count > 0 then s.flushAnymsg else s

def storePromises (s : LeaderState) (batch : PromiseBatchMsg) : LeaderState :=
  (batch.data.take batch.count.toNat).foldl
    (fun s prom => (handlePromise cfg s prom batch.acceptorId).1) s

def leaderHandlePromiseMsg (s : LeaderState) (batch : PromiseBatchMsg) : LeaderState :=
  let proms := batch.data.take batch.count.toNat
  let firstIid := (proms.head?.map PromiseMsg.iid).getD (-1)
  let lastIid := (proms.getLast?.map PromiseMsg.iid).getD (-1)
  executePhase2 cfg (storePromises cfg s batch) firstIid lastIid

/-- `none` is the failed assertion that the slot holds the current instance. -/
def phase2CheckCb (s : LeaderState) : Option LeaderState :=
  if s.currentIid = s.p2CurrentIid then
    let s := s.initPrepares
    let r := s.slot cfg s.currentIid
    if r.iid ≠ s.currentIid then none
    else
      let p1info :=
        if r.status = .p1Finished then
          { s.p1info with
            readyCount := s.p1info.readyCount - 1
            pendingCount := s.p1info.pendingCount + 1 }
        else s.p1info
      let status := if r.status = .p1Finished then .p1Pending else r.status
      let r :=
        { r with status := status, ballot := cfg.ballotNext r.ballot }.clearPromises
      let s := { s.setSlot cfg s.currentIid r with p1info := p1info }
      let s := (addPrepareToBuffer s r.iid r.ballot).flushPrepares
      some { s with p2CurrentIid := s.currentIid }
  else some { s with p2CurrentIid := s.currentIid }

def leaderDeliverValue (s : LeaderState) (iid : Int) : LeaderState :=
  { s with
    currentIid := iid + 1
    p1info := { s.p1info with readyCount := s.p1info.readyCount - 1 } }

/-- The static variables of leader.c before `leader_init`. -/
def leaderStatics : LeaderState where
  proposerId := 0
  currentIid := 0
  p1info :=
    { pendingCount := 0, readyCount := 0, highestReady := 0, firstToCheck := 0, lastToCheck := 0 }
  p2CurrentIid := 0
  proposerArray := fun _ =>
    { iid := 0, ballot := 0, status := .p1New, promiseCount := 0
      promises := fun _ => { iid := 0, valueBallot := 0, valueSize := 0, value := none } }
  msgSize := 0
  prepares := { count := 0, data := [] }
  anymsg := { ballot := 0, count := 0, ids := [] }
  sent := []

def leaderInit (propId : Int) : LeaderState :=
  let s := { leaderStatics with
    proposerId := propId
    p1info :=
      { pendingCount := 0, readyCount := 0, highestReady := -1, firstToCheck := 0
        lastToCheck := 0 } }
  let s := { s with p2CurrentIid := s.currentIid }
  executePhase1 cfg s.initPrepares

end Handlers
end LibFastPaxos
