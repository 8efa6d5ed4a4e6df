import LibFastPaxos.Learner

/-!
The proposer of proposer.c: the client's call that sends a value and waits, the
timeout that sends the buffer again, and the deliver callback that moves on to
the next instance until the client's own value comes back. The `trace` records,
newest first, the calls and returns of `proposer_submit_value`, the datagrams
and the calls of the deliver functions. A call is one step up to its wait, and
the client makes the next one only after it has returned.
-/

namespace LibFastPaxos

structure TimeoutInfo where
  instanceId : Int
  hash : Int
  deriving DecidableEq, Repr

inductive ProposerEffect where
  | submit (value : Bytes)
  | returned
  | send (msg : PaxosMsg)
  | deliver (call : DeliverCall)
  | clientDeliver (call : DeliverCall)
  deriving DecidableEq, Repr

structure ProposerState where
  proposerId : Int
  fixedBallot : Int
  clientWaiting : Bool
  currentIid : Int
  lastAcceptIid : Int
  lastAcceptHash : Int
  /-- The two headers in `proposer_send_buffer`: `msg->size` and the accept. -/
  size : Int
  amsg : AcceptMsg
  /-- `client_deliver_func` is not NULL. -/
  clientDeliverFunc : Bool
  timers : List TimeoutInfo
  trace : List ProposerEffect

namespace ProposerState

def emit (s : ProposerState) (e : ProposerEffect) : ProposerState :=
  { s with trace := e :: s.trace }

def sendBuffer (s : ProposerState) : ProposerState :=
  s.emit (.send { size := s.size, data := .accept s.amsg })

def setProposerCheckTimeout (s : ProposerState) (instanceId hash : Int) : ProposerState :=
  { s with timers := ⟨instanceId, hash⟩ :: s.timers }

/-- The client's own deliver function is called if it has given one. -/
def callClient (s : ProposerState) (call : DeliverCall) : ProposerState :=
  if s.clientDeliverFunc then s.emit (.clientDeliver call) else s

end ProposerState

section Handlers

variable (cfg : Config)

/-- An armed timeout goes off. -/
def proposerCheckTimeout (s : ProposerState) (ti : TimeoutInfo) : ProposerState :=
  let s := { s with timers := s.timers.erase ti }
  if s.clientWaiting ∧ ti.instanceId = s.lastAcceptIid ∧ ti.hash = s.lastAcceptHash then
    let s := { s with lastAcceptHash := s.lastAcceptHash + 1 }
    s.sendBuffer.setProposerCheckTimeout ti.instanceId s.lastAcceptHash
  else s

/-- `none` is the failed assertion that instances are delivered in order. -/
def proposerDeliverCallback (s : ProposerState) (call : DeliverCall) : Option ProposerState :=
  let justAccepted := s.currentIid
  let s := { s with currentIid := s.currentIid + 1 }.emit (.deliver call)
  if justAccepted ≠ call.iid then none
  else if s.clientWaiting = false then some s
  else
    let s := s.callClient call
    if s.proposerId = call.proposer then
      some ({ s with clientWaiting := false }.emit .returned)
    else
      let s := { s with
        amsg := { s.amsg with iid := s.currentIid }
        lastAcceptIid := justAccepted
        lastAcceptHash := s.lastAcceptHash + 1 }
      some (s.sendBuffer.setProposerCheckTimeout s.amsg.iid s.lastAcceptHash)

/-- A value that is too big is refused before anything is done. -/
def proposerSubmitValue (s : ProposerState) (value : Bytes) : ProposerState :=
  let s := s.emit (.submit value)
  if value.length > paxosMaxValueSize then s.emit .returned
  else
    let firstHash := 1
    let s := { s with
      lastAcceptIid := s.currentIid
      lastAcceptHash := firstHash
      clientWaiting := true
      size := sizeofAcceptMsg + value.length
      amsg :=
        { iid := s.currentIid
          ballot := s.fixedBallot
          valueSize := value.length
          proposerId := s.proposerId
          value := value } }
    s.sendBuffer.setProposerCheckTimeout s.amsg.iid firstHash

/-- The static variables of proposer.c. -/
def proposerStatics : ProposerState where
  proposerId := 0
  fixedBallot := 0
  clientWaiting := false
  currentIid := 0
  lastAcceptIid := 0
  lastAcceptHash := 0
  size := 0
  amsg := { iid := 0, ballot := 0, valueSize := 0, proposerId := 0, value := [] }
  clientDeliverFunc := false
  timers := []
  trace := []

def proposerInit (propId : Int) : ProposerState :=
  { proposerStatics with
    proposerId := propId
    currentIid := 0
    fixedBallot := cfg.maxProposers + propId }

/-- It hands the static `proposer_id` to `proposer_init`, not its own argument. -/
def proposerInitAndDeliver (_propId : Int) (f : Bool) : ProposerState :=
  { proposerInit cfg proposerStatics.proposerId with clientDeliverFunc := f }

end Handlers

def ProposerEffect.sent? : ProposerEffect → Option PaxosMsg
  | .send m => some m
  | _ => none

/-- Datagrams sent so far, newest first. -/
def ProposerState.sent (s : ProposerState) : List PaxosMsg :=
  s.trace.filterMap ProposerEffect.sent?

end LibFastPaxos
