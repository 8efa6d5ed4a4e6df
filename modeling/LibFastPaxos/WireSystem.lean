import LibFastPaxos.AcceptorDatagrams
import LibFastPaxos.LeaderDatagrams
import LibFastPaxos.LeaderReceives
import LibFastPaxos.LearnerDatagrams
import LibFastPaxos.LearnerReceives
import LibFastPaxos.ProposerDatagrams

/-!
The whole system over datagrams of bytes. Every party has its send buffers beside its
state, and a receive buffer that may hold anything before a datagram is copied into it;
the network hands over the bytes that were sent, as often and as late as it likes. What a
party does with them it reads out of its own buffer.
-/

namespace LibFastPaxos

open Memory Transition

/-- `leader_handle_proposer_msg` on the send buffer. -/
def LeaderBuffer.leaderHandleProposerMsg (cfg : Config) (stack : Int → UdpBuffer)
    (s : LeaderState) (b : LeaderBuffer) (buf : UdpBuffer) (d : Datagram) : LeaderBuffer :=
  let mem := buf.receive d
  let batch := do
    let type ← intAt mem 4
    if type ≠ paxosPromise then none
    else if (d.bytes.length : Int) < sizeofPaxosMsg + sizeofPromiseBatchMsg then none
    else readPromiseBatch mem sizeofPaxosMsg
  batch.elim b (LeaderBuffer.leaderHandlePromiseMsg cfg stack s b)

structure WireAcceptor where
  state : AcceptorState
  buffer : SendBuffer

/-- A process with `lear_send_buffer`, `proposer_send_buffer` and `leader_send_buffer`. -/
structure WireProcess where
  process : Process
  learner : LearnerBuffer
  proposer : ProposerBuffer
  leader : LeaderBuffer

namespace WireProcess

/-- The datagrams that the process has sent. -/
def sent (w : WireProcess) : List Bytes := w.learner.sent ++ (w.proposer.sent ++ w.leader.sent)

/-- One call of the deliver function that the learner was started with. -/
def deliver (w : WireProcess) (call : DeliverCall) : Option WireProcess :=
  (w.process.deliver call).map fun p =>
    { w with
      process := p
      proposer := w.process.proposer.elim w.proposer fun s =>
        w.proposer.proposerDeliverCallback s call }

variable (cfg : Config) (w : WireProcess)

def learnerHandleLearnerMsg (buf : UdpBuffer) (d : Datagram) : Option WireProcess :=
  (LibFastPaxos.learnerHandleLearnerMsg cfg w.process.learner buf d).bind fun learner =>
    (newDeliveries w.process.learner learner).foldlM deliver
      { w with process := { w.process with learner := learner } }

/-- `stack` is what `send_accept` finds on the stack. -/
def leaderHandleProposerMsg (stack : Int → UdpBuffer) (buf : UdpBuffer) (d : Datagram) :
    Option WireProcess :=
  w.process.leader.bind fun l =>
    (LibFastPaxos.leaderHandleProposerMsg cfg l buf d).map fun t =>
      { w with
        process := { w.process with leader := some t }
        leader := LeaderBuffer.leaderHandleProposerMsg cfg stack l w.leader buf d }

def lsyncCheck : WireProcess :=
  { w with
    process := { w.process with learner := LibFastPaxos.lsyncCheck cfg w.process.learner }
    learner := w.learner.lsyncCheck cfg w.process.learner }

def phase1CheckCb : Option WireProcess :=
  w.process.leader.map fun l =>
    { w with
      process := { w.process with leader := some (LibFastPaxos.phase1CheckCb cfg l) }
      leader := LeaderBuffer.phase1CheckCb cfg l w.leader }

def phase2CheckCb : Option WireProcess :=
  w.process.leader.bind fun l =>
    (LibFastPaxos.phase2CheckCb cfg l).map fun t =>
      { w with
        process := { w.process with leader := some t }
        leader := LeaderBuffer.phase2CheckCb cfg l w.leader }

/-- The proposer takes a step of its own. -/
def propose (event : ProposerEvent) : Option WireProcess :=
  w.process.proposer.bind fun s =>
    (proposerStep s event).map fun t =>
      { w with
        process := { w.process with proposer := some t }
        proposer := w.proposer.event s event }

end WireProcess

section Start

variable (cfg : Config) (mem : UdpBuffer)

/-- The id that `leader_init` is called with. -/
def Role.leaderId? (role : Role) : Option Int := if role.isLeader then role.installedId? else none

/-- Every buffer starts with the same bytes, and `leader_init` sends its prepares. -/
def Role.wireStart (role : Role) : WireProcess where
  process := role.start cfg
  learner := { bytes := mem.bytes, sent := [], bufferSize := 0 }
  proposer := { bytes := mem.bytes, sent := [], msgSize := 0 }
  leader := role.leaderId?.elim { bytes := mem.bytes, sent := [] } fun id =>
    LeaderBuffer.leaderInit cfg id { bytes := mem.bytes, sent := [] }

end Start

section System

variable {cfg : Config} (D : Deployment cfg)

structure WireState where
  acceptors : Fin cfg.nOfAcceptors → WireAcceptor
  processes : Fin D.processes → WireProcess

inductive WireAction where
  | acceptor (a : Fin cfg.nOfAcceptors) (buf : UdpBuffer) (d : Datagram)
  | learner (i : Fin D.processes) (buf : UdpBuffer) (d : Datagram)
  | leader (i : Fin D.processes) (stack : Int → UdpBuffer) (buf : UdpBuffer) (d : Datagram)
  | lsyncTimer (i : Fin D.processes)
  | phase1Timer (i : Fin D.processes)
  | phase2Timer (i : Fin D.processes)
  | timeout (i : Fin D.processes) (ti : TimeoutInfo)
  | submit (i : Fin D.processes) (value : Bytes)

variable {D}

namespace WireState

/-- The datagrams sent to the acceptors. -/
def toAcceptors (ω : WireState D) : List Bytes :=
  (List.finRange D.processes).flatMap fun i => (ω.processes i).sent

/-- The datagrams sent by the acceptors, to learners and leader alike. -/
def fromAcceptors (ω : WireState D) : List Bytes :=
  (List.finRange cfg.nOfAcceptors).flatMap fun a => (ω.acceptors a).buffer.sent

def setAcceptor (ω : WireState D) (a : Fin cfg.nOfAcceptors) (w : WireAcceptor) : WireState D :=
  { ω with acceptors := Function.update ω.acceptors a w }

def setProcess (ω : WireState D) (i : Fin D.processes) (w : WireProcess) : WireState D :=
  { ω with processes := Function.update ω.processes i w }

/-- The parties without their buffers. -/
def system (ω : WireState D) : SystemState D where
  acceptors := fun a => (ω.acceptors a).state
  processes := fun i => (ω.processes i).process

end WireState

/-- `none` when the step is not possible or crashes. -/
def wireAct (ω : WireState D) : WireAction D → Option (WireState D)
  | .acceptor a buf d =>
      let w := ω.acceptors a
      if d.bytes ∈ ω.toAcceptors then
        (getNextMessage cfg (D.disk a) w.state buf d).map fun t =>
          ω.setAcceptor a ⟨t, w.buffer.getNextMessage cfg (D.disk a) w.state buf d⟩
      else none
  | .learner i buf d =>
      if d.bytes ∈ ω.fromAcceptors then
        ((ω.processes i).learnerHandleLearnerMsg cfg buf d).map (ω.setProcess i)
      else none
  | .leader i stack buf d =>
      if d.bytes ∈ ω.fromAcceptors then
        ((ω.processes i).leaderHandleProposerMsg cfg stack buf d).map (ω.setProcess i)
      else none
  | .lsyncTimer i => some (ω.setProcess i ((ω.processes i).lsyncCheck cfg))
  | .phase1Timer i => ((ω.processes i).phase1CheckCb cfg).map (ω.setProcess i)
  | .phase2Timer i => ((ω.processes i).phase2CheckCb cfg).map (ω.setProcess i)
  | .timeout i ti => ((ω.processes i).propose (.timeout ti)).map (ω.setProcess i)
  | .submit i value => ((ω.processes i).propose (.submit value)).map (ω.setProcess i)

variable (D)

def wireStart (mem : UdpBuffer) : WireState D where
  acceptors := fun a =>
    { state := acceptorStart (a : Nat)
      buffer := { acceptorId := (a : Nat), bytes := mem.bytes, size := 0, sent := [] } }
  processes := fun i => (D.role i).wireStart cfg mem

def wireSystem : System (WireState D) (WireAction D) where
  init := fun ω => ∃ mem, ω = wireStart D mem
  step := fun ω action ω' => wireAct ω action = some ω'

end System
end LibFastPaxos
