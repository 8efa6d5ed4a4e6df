import LibFastPaxos.AcceptorRuns
import LibFastPaxos.Leader
import LibFastPaxos.Proposer
import Mathlib.Data.List.FinRange

/-!
The whole system: acceptors with their disks and processes that learn, propose
and lead. The three multicast groups are the datagrams sent so far. A receiver
may be handed any of them at any time and any number of times, or never, which
covers loss, delay, reordering and duplication; timers go off at any time. A
step without a successor is a crash: a failed assertion or a NULL record.
-/

namespace LibFastPaxos

open Transition

/-- How a process is started. -/
inductive Role where
  | learner
  | proposer (propId : Int) (isLeader : Bool)
  | proposerAndDeliver (propId : Int) (isLeader : Bool) (f : Bool)
  deriving DecidableEq, Repr

namespace Role

/-- The argument `prop_id` of the entry point. -/
def propId? : Role → Option Int
  | .learner => none
  | .proposer propId _ | .proposerAndDeliver propId _ _ => some propId

/-- The `proposer_id` that `proposer_init` installs. -/
def installedId? : Role → Option Int
  | .learner => none
  | .proposer propId _ => some propId
  | .proposerAndDeliver _ _ _ => some proposerStatics.proposerId

def isLeader : Role → Bool
  | .learner => false
  | .proposer _ isLeader | .proposerAndDeliver _ isLeader _ => isLeader

end Role

/-- The acceptors' disks and the processes, at most one of which leads. -/
structure Deployment (cfg : Config) where
  disk : Fin cfg.nOfAcceptors → DiskEnv
  processes : Nat
  role : Fin processes → Role
  installed_range : ∀ i id, (role i).installedId? = some id → 0 ≤ id ∧ id < cfg.maxProposers
  one_leader : ∀ i j, (role i).isLeader → (role j).isLeader → i = j

structure Process where
  learner : LearnerState
  proposer : Option ProposerState
  leader : Option LeaderState

/-- What a process has sent to the acceptors. -/
def Process.sent (p : Process) : List PaxosMsg :=
  p.learner.sent ++ (p.proposer.elim [] ProposerState.sent ++
    p.leader.elim [] LeaderState.sent)

section Processes

variable (cfg : Config)

def Role.start : Role → Process
  | .learner => { learner := learnerStart, proposer := none, leader := none }
  | .proposer propId isLeader =>
      { learner := learnerStart
        proposer := some (proposerInit cfg propId)
        leader := if isLeader then some (leaderInit cfg propId) else none }
  | .proposerAndDeliver propId isLeader f =>
      { learner := learnerStart
        proposer := some (proposerInitAndDeliver cfg propId f)
        leader := if isLeader then some (leaderInit cfg proposerStatics.proposerId) else none }

/-- One call of the deliver function that the learner was started with. -/
def Process.deliver (p : Process) (call : DeliverCall) : Option Process :=
  match p.proposer with
  | none => some p
  | some s =>
      (proposerDeliverCallback s call).map fun t =>
        { p with
          proposer := some t
          leader := p.leader.map fun l => leaderDeliverValue l call.iid }

/-- The deliver calls made between two states of a learner, oldest first. -/
def newDeliveries (before after : LearnerState) : List DeliverCall :=
  (after.delivered.take (after.delivered.length - before.delivered.length)).reverse

def Process.handleLearn (p : Process) (lmsg : LearnMsg) : Option Process :=
  let learner := learnerHandleLearnMsg cfg p.learner lmsg
  (newDeliveries p.learner learner).foldlM Process.deliver { p with learner := learner }

/-- A datagram of the learners' or the proposers' group. -/
def Process.receive (p : Process) (msg : PaxosMsg) : Option Process :=
  match msg.data with
  | .learn lmsg => p.handleLearn cfg lmsg
  | .promise batch =>
      some { p with leader := p.leader.map fun l => leaderHandlePromiseMsg cfg l batch }
  | _ => some p

end Processes

section System

variable {cfg : Config} (D : Deployment cfg)

structure SystemState where
  acceptors : Fin cfg.nOfAcceptors → AcceptorState
  processes : Fin D.processes → Process

inductive Action where
  | acceptor (a : Fin cfg.nOfAcceptors) (msg : PaxosMsg)
  | receive (i : Fin D.processes) (msg : PaxosMsg)
  | lsyncTimer (i : Fin D.processes)
  | phase1Timer (i : Fin D.processes)
  | phase2Timer (i : Fin D.processes)
  | timeout (i : Fin D.processes) (ti : TimeoutInfo)
  | submit (i : Fin D.processes) (value : Bytes)

variable {D}

namespace SystemState

/-- The datagrams sent to the acceptors. -/
def toAcceptors (σ : SystemState D) : List PaxosMsg :=
  (List.finRange D.processes).flatMap fun i => (σ.processes i).sent

/-- The datagrams sent by the acceptors to learners and leader. -/
def fromAcceptors (σ : SystemState D) : List PaxosMsg :=
  (List.finRange cfg.nOfAcceptors).flatMap fun a => (σ.acceptors a).sent

def setAcceptor (σ : SystemState D) (a : Fin cfg.nOfAcceptors) (s : AcceptorState) :
    SystemState D :=
  { σ with acceptors := Function.update σ.acceptors a s }

def setProcess (σ : SystemState D) (i : Fin D.processes) (p : Process) : SystemState D :=
  { σ with processes := Function.update σ.processes i p }

end SystemState

/-- `none` when the step is not possible or crashes. -/
def act (σ : SystemState D) : Action D → Option (SystemState D)
  | .acceptor a msg =>
      if msg ∈ σ.toAcceptors then
        (handleMessage cfg (D.disk a) (σ.acceptors a) msg).map (σ.setAcceptor a)
      else none
  | .receive i msg =>
      if msg ∈ σ.fromAcceptors then
        ((σ.processes i).receive cfg msg).map (σ.setProcess i)
      else none
  | .lsyncTimer i =>
      let p := σ.processes i
      some (σ.setProcess i { p with learner := lsyncCheck cfg p.learner })
  | .phase1Timer i =>
      let p := σ.processes i
      p.leader.map fun l => σ.setProcess i { p with leader := some (phase1CheckCb cfg l) }
  | .phase2Timer i =>
      let p := σ.processes i
      (p.leader.bind (phase2CheckCb cfg)).map fun l => σ.setProcess i { p with leader := some l }
  | .timeout i ti =>
      let p := σ.processes i
      p.proposer.bind fun s =>
        if ti ∈ s.timers then
          some (σ.setProcess i { p with proposer := some (proposerCheckTimeout s ti) })
        else none
  | .submit i value =>
      let p := σ.processes i
      p.proposer.bind fun s =>
        if s.clientWaiting = false then
          some (σ.setProcess i { p with proposer := some (proposerSubmitValue s value) })
        else none

variable (D)

def systemStart : SystemState D where
  acceptors := fun a => acceptorStart (a : Nat)
  processes := fun i => (D.role i).start cfg

def system : System (SystemState D) (Action D) where
  init := fun σ => σ = systemStart D
  step := fun σ action τ => act σ action = some τ

end System
end LibFastPaxos
