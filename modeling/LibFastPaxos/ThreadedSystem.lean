import LibFastPaxos.ProposerThreads
import LibFastPaxos.Agreement

/-!
The system in which a submit is no single step. The event thread of a process handles one
datagram or timer at a time and then makes the deliver calls that this has led to, one
after the other. The steps of the client thread come anywhere in between.
-/

namespace LibFastPaxos

open Transition

theorem start_idle {cfg : Config} {role : Role} {s : ProposerState}
    (start : (role.start cfg).proposer = some s) : s.clientWaiting = false ∧ s.timers = [] := by
  cases role with
  | learner => cases start
  | proposer propId isLeader | proposerAndDeliver propId isLeader f =>
      cases start
      exact ⟨rfl, rfl⟩

/-- The value that is still to be filled into the buffer. -/
def ClientPc.filling? : ClientPc → Option Bytes
  | .filling value => some value
  | .idle | .arming _ | .waiting _ => none

theorem filling?_iff {pc : ClientPc} {value : Bytes} :
    pc.filling? = some value ↔ pc = .filling value := by
  cases pc <;> simp [ClientPc.filling?]

structure ThreadedProcess where
  learner : LearnerState
  proposer : Option ThreadState
  leader : Option LeaderState
  /-- The deliver calls that the event thread is about to make, oldest first. -/
  pending : List DeliverCall

section Processes

variable (cfg : Config)

def Role.threadedStart (role : Role) : ThreadedProcess where
  learner := (role.start cfg).learner
  proposer := (role.start cfg).proposer.map threadStart
  leader := (role.start cfg).leader
  pending := []

/-- The next call of the deliver function that the learner was started with. -/
def ThreadedProcess.deliver (p : ThreadedProcess) : Option ThreadedProcess :=
  match p.pending with
  | [] => none
  | call :: rest =>
      match p.proposer with
      | none => some { p with pending := rest }
      | some s =>
          (threadDeliverCallback s call).map fun t =>
            { p with
              proposer := some t
              leader := p.leader.map fun l => leaderDeliverValue l call.iid
              pending := rest }

/-- A datagram of the learners' or the proposers' group, up to the deliver calls. -/
def ThreadedProcess.receive (p : ThreadedProcess) (msg : PaxosMsg) : ThreadedProcess :=
  match msg.data with
  | .learn lmsg =>
      let learner := learnerHandleLearnMsg cfg p.learner lmsg
      { p with learner := learner, pending := newDeliveries p.learner learner }
  | .promise batch =>
      { p with leader := p.leader.map fun l => leaderHandlePromiseMsg cfg l batch }
  | _ => p

/-- The process without its program counters. -/
def ThreadedProcess.view (p : ThreadedProcess) : Process where
  learner := p.learner
  proposer := p.proposer.map ThreadState.toProposerState
  leader := p.leader

end Processes

section System

variable {cfg : Config} (D : Deployment cfg)

structure ThreadedState where
  acceptors : Fin cfg.nOfAcceptors → AcceptorState
  processes : Fin D.processes → ThreadedProcess

inductive ThreadedAction where
  | acceptor (a : Fin cfg.nOfAcceptors) (msg : PaxosMsg)
  | receive (i : Fin D.processes) (msg : PaxosMsg)
  | lsyncTimer (i : Fin D.processes)
  | phase1Timer (i : Fin D.processes)
  | phase2Timer (i : Fin D.processes)
  | timeout (i : Fin D.processes) (ti : TimeoutInfo)
  | deliver (i : Fin D.processes)
  | call (i : Fin D.processes) (value : Bytes)
  | fill (i : Fin D.processes)
  | arm (i : Fin D.processes)
  | returns (i : Fin D.processes)

variable {D}

namespace ThreadedState

def view (σ : ThreadedState D) : SystemState D where
  acceptors := σ.acceptors
  processes := fun i => (σ.processes i).view

def setAcceptor (σ : ThreadedState D) (a : Fin cfg.nOfAcceptors) (s : AcceptorState) :
    ThreadedState D :=
  { σ with acceptors := Function.update σ.acceptors a s }

def setProcess (σ : ThreadedState D) (i : Fin D.processes) (p : ThreadedProcess) :
    ThreadedState D :=
  { σ with processes := Function.update σ.processes i p }

/-- A step of the proposer of a process. -/
def thread (σ : ThreadedState D) (i : Fin D.processes) (event : ThreadEvent) :
    Option (ThreadedState D) :=
  let p := σ.processes i
  p.proposer.bind fun s =>
    (threadStep s event).map fun t => σ.setProcess i { p with proposer := some t }

end ThreadedState

/-- `none` when the step is not possible or crashes. The event thread makes the calls that
are pending before it turns to anything else. -/
def threadedAct (σ : ThreadedState D) : ThreadedAction D → Option (ThreadedState D)
  | .acceptor a msg =>
      if msg ∈ σ.view.toAcceptors then
        (handleMessage cfg (D.disk a) (σ.acceptors a) msg).map (σ.setAcceptor a)
      else none
  | .receive i msg =>
      let p := σ.processes i
      if p.pending = [] then
        if msg ∈ σ.view.fromAcceptors then some (σ.setProcess i (p.receive cfg msg)) else none
      else none
  | .lsyncTimer i =>
      let p := σ.processes i
      if p.pending = [] then
        some (σ.setProcess i { p with learner := lsyncCheck cfg p.learner })
      else none
  | .phase1Timer i =>
      let p := σ.processes i
      if p.pending = [] then
        p.leader.map fun l => σ.setProcess i { p with leader := some (phase1CheckCb cfg l) }
      else none
  | .phase2Timer i =>
      let p := σ.processes i
      if p.pending = [] then
        (p.leader.bind (phase2CheckCb cfg)).map fun l =>
          σ.setProcess i { p with leader := some l }
      else none
  | .timeout i ti => if (σ.processes i).pending = [] then σ.thread i (.timeout ti) else none
  | .deliver i => (σ.processes i).deliver.map (σ.setProcess i)
  | .call i value => σ.thread i (.call value)
  | .fill i => σ.thread i .fill
  | .arm i => σ.thread i .arm
  | .returns i => σ.thread i .returns

variable (D)

def threadedStart : ThreadedState D where
  acceptors := fun a => acceptorStart (a : Nat)
  processes := fun i => (D.role i).threadedStart cfg

def threadedSystem : System (ThreadedState D) (ThreadedAction D) where
  init := fun σ => σ = threadedStart D
  step := fun σ action τ => threadedAct σ action = some τ

variable {D}

/-! Conditions on a step. -/

/-- The step of the system that an acceptor or the event thread takes. -/
def ThreadedAction.action? : ThreadedAction D → Option (Action D)
  | .acceptor a msg => some (.acceptor a msg)
  | .receive i msg => some (.receive i msg)
  | .lsyncTimer i => some (.lsyncTimer i)
  | .phase1Timer i => some (.phase1Timer i)
  | .phase2Timer i => some (.phase2Timer i)
  | .timeout _ _ | .deliver _ | .call _ _ | .fill _ | .arm _ | .returns _ => none

/-- The send buffer is not moved on for a call that has not filled it. -/
def BuffersKept (σ : ThreadedState D) : ThreadedAction D → Prop
  | .deliver i => ∀ s, (σ.processes i).proposer = some s →
      ∀ call ∈ (σ.processes i).pending.head?, KeepsBuffer s (.deliver call)
  | _ => True

/-- A step of the acceptors or of the event thread meets the condition of the system, and
no deliver call that of the buffers. -/
structure ThreadedMeets (guard : SystemState D → Action D → Prop) (σ : ThreadedState D)
    (action : ThreadedAction D) : Prop where
  meets : ∀ base, action.action? = some base → guard σ.view base
  buffers : BuffersKept σ action

/-! Runs can be checked against these conditions. -/

instance (s : ThreadState) (value : Bytes) : Decidable (s.Holds value) :=
  decidable_of_iff (s.amsg.value = value ∧ s.amsg.valueSize = value.length ∧
    s.size = sizeofAcceptMsg + value.length)
    ⟨fun h => ⟨h.1, h.2.1, h.2.2⟩, fun h => ⟨h.1, h.2, h.3⟩⟩

instance (s : ThreadState) : (event : ThreadEvent) → Decidable (KeepsBuffer s event)
  | .deliver call =>
      decidable_of_iff (∀ value, s.client.filling? = some value → s.clientWaiting = true →
        call.proposer ≠ s.proposerId → s.msgSize = 0 ∨ s.Holds value)
        (forall_congr' fun _ => imp_congr filling?_iff Iff.rfl)
  | .call _ | .fill | .arm | .returns | .timeout _ => isTrue trivial

instance (σ : ThreadedState D) : (action : ThreadedAction D) → Decidable (BuffersKept σ action)
  | .deliver i => inferInstanceAs (Decidable (∀ s, (σ.processes i).proposer = some s →
      ∀ call ∈ (σ.processes i).pending.head?, KeepsBuffer s (.deliver call)))
  | .acceptor _ _ | .receive _ _ | .lsyncTimer _ | .phase1Timer _ | .phase2Timer _
  | .timeout _ _ | .call _ _ | .fill _ | .arm _ | .returns _ => isTrue trivial

instance (guard : SystemState D → Action D → Prop) [∀ σ action, Decidable (guard σ action)]
    (σ : ThreadedState D) (action : ThreadedAction D) : Decidable (ThreadedMeets guard σ action) :=
  decidable_of_iff ((∀ base, action.action? = some base → guard σ.view base) ∧
    BuffersKept σ action) ⟨fun h => ⟨h.1, h.2⟩, fun h => ⟨h.1, h.2⟩⟩

end System
end LibFastPaxos
