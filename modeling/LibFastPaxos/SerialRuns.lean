import LibFastPaxos.Lib.Refinement
import LibFastPaxos.ThreadedSystem

/-!
The runs of the system are the runs of the two threads in which nothing comes between the
steps of a call up to its wait, nor between the deliver calls of one datagram.
-/

namespace LibFastPaxos

open Transition History

/-! ### A proposer between two steps of the system -/

/-- The client makes no call, or it waits and the buffer is filled. -/
inductive ThreadState.Settled (s : ThreadState) : Prop where
  | idle (client : s.client = .idle) (woken : s.clientWaiting = false)
  | waiting (value : Bytes) (client : s.client = .waiting value) (waits : s.clientWaiting = true)
      (filled : s.msgSize ≠ 0)

/-- Steps of the client thread. -/
def ThreadEvent.OfClient : ThreadEvent → Prop
  | .call _ | .fill | .arm | .returns => True
  | .timeout _ | .deliver _ => False

def ClientStep (s t : ThreadState) : Prop :=
  ∃ event : ThreadEvent, event.OfClient ∧ threadStep s event = some t

section Thread

variable {s t : ThreadState} {u : ProposerState}

/-- No callback finds a buffer that is still to be filled. -/
theorem ThreadState.Settled.keepsBuffer (h : s.Settled) (event : ThreadEvent) :
    KeepsBuffer s event := by
  cases event with
  | call _ | fill | arm | returns | timeout _ => trivial
  | deliver call =>
      intro value filling
      cases h with
      | idle client _ | waiting _ client _ _ =>
          rw [client] at filling
          cases filling

/-- The buffer that a callback sends is filled. -/
theorem ThreadState.Settled.udpSend (h : s.Settled) (waits : s.clientWaiting = true) :
    s.udpSend = { s with toProposerState := s.toProposerState.sendBuffer } := by
  cases h with
  | idle _ woken =>
      rw [waits] at woken
      cases woken
  | waiting _ _ _ filled => exact if_neg filled

theorem clientSteps {events : List ThreadEvent} (client : ∀ event ∈ events, event.OfClient)
    (run : events.foldlM threadStep s = some t) : Relation.ReflTransGen ClientStep s t := by
  induction events generalizing s with
  | nil =>
      obtain rfl := Option.some.inj run
      exact .refl
  | cons event events ih =>
      rw [List.foldlM_cons] at run
      obtain ⟨u, hu, rest⟩ := Option.bind_eq_some_iff.mp run
      exact .head ⟨event, client event List.mem_cons_self, hu⟩
        (ih (fun e he => client e (List.mem_cons_of_mem event he)) rest)

/-- A call up to its wait. -/
theorem ThreadState.Settled.submit (h : s.Settled) (woken : s.clientWaiting = false)
    (value : Bytes) :
    ∃ t : ThreadState, Relation.ReflTransGen ClientStep s t ∧ t.Settled ∧
      t.toProposerState = proposerSubmitValue s.toProposerState value := by
  cases h with
  | waiting _ _ waits _ =>
      rw [woken] at waits
      cases waits
  | idle client _ =>
      by_cases big : value.length > paxosMaxValueSize
      · refine ⟨_, .single ⟨.call value, trivial, if_pos client⟩, ?_, ?_⟩
        · simp only [threadCall, if_pos big]
          exact .idle client woken
        · simp [threadCall, proposerSubmitValue, big, ProposerState.emit]
      · obtain ⟨t, run, hclient, hfilled, hview⟩ := submit_uninterrupted client big
        refine ⟨t, clientSteps (by simp [ThreadEvent.OfClient]) run, ?_, hview⟩
        refine .waiting value hclient ?_ hfilled
        rw [hview]
        simp [proposerSubmitValue, big, ProposerState.sendBuffer, ProposerState.emit,
          ProposerState.setProposerCheckTimeout]

theorem ThreadState.Settled.congr (h : s.Settled) (client : t.client = s.client)
    (clientWaiting : t.clientWaiting = s.clientWaiting) (msgSize : t.msgSize = s.msgSize) :
    t.Settled := by
  cases h with
  | idle idle woken => exact .idle (client.trans idle) (clientWaiting.trans woken)
  | waiting value waiting waits filled =>
      exact .waiting value (client.trans waiting) (clientWaiting.trans waits) (msgSize ▸ filled)

theorem ThreadState.Settled.timeout (h : s.Settled) (ti : TimeoutInfo) :
    (threadCheckTimeout s ti).Settled ∧
      (threadCheckTimeout s ti).toProposerState = proposerCheckTimeout s.toProposerState ti := by
  simp only [threadCheckTimeout, proposerCheckTimeout]
  split
  · next hmatch =>
      have hnext : ThreadState.Settled { s with
          lastAcceptHash := s.lastAcceptHash + 1, timers := s.timers.erase ti } :=
        h.congr rfl rfl rfl
      rw [hnext.udpSend hmatch.1]
      exact ⟨h.congr rfl rfl rfl, rfl⟩
  · exact ⟨h.congr rfl rfl rfl, rfl⟩

/-- A deliver call, and the return of the client that it wakes. -/
theorem ThreadState.Settled.deliver (h : s.Settled) {call : DeliverCall}
    (run : proposerDeliverCallback s.toProposerState call = some u) :
    ∃ t t' : ThreadState, threadDeliverCallback s call = some t ∧
      Relation.ReflTransGen ClientStep t t' ∧ t'.Settled ∧ t'.toProposerState = u := by
  obtain ⟨hiid, outcome⟩ := proposerDeliverCallback_outcome run
  simp only [threadDeliverCallback, callClient_eq, hiid, ne_eq, not_true_eq_false, if_false]
  cases outcome with
  | idle waiting =>
      rw [if_pos waiting]
      exact ⟨_, _, rfl, .refl, h.congr rfl rfl rfl, rfl⟩
  | woken waiting own =>
      rw [if_neg (by simp [waiting]), if_pos own.symm]
      cases h with
      | idle _ woken =>
          rw [waiting] at woken
          cases woken
      | waiting value client _ _ =>
          have hreturns : threadStep { s with
              currentIid := s.currentIid + 1
              clientWaiting := false
              trace := s.told call ++ .deliver call :: s.trace } .returns = some { s with
                currentIid := s.currentIid + 1
                clientWaiting := false
                client := .idle
                trace := .returned :: (s.told call ++ .deliver call :: s.trace) } := by
            simp [threadStep, client]
          exact ⟨_, _, rfl, .single ⟨.returns, trivial, hreturns⟩, .idle rfl rfl, rfl⟩
  | resent waiting other =>
      rw [if_neg (by simp [waiting]), if_neg (Ne.symm other)]
      have hmoved : (s.moveOn call).Settled := h.congr rfl rfl rfl
      refine ⟨(s.moveOn call).udpSend.setProposerCheckTimeout (s.currentIid + 1)
        (s.lastAcceptHash + 1), _, rfl, .refl, ?_, ?_⟩
      · rw [hmoved.udpSend waiting]
        exact h.congr rfl rfl rfl
      · rw [hmoved.udpSend waiting]
        rfl

end Thread

/-! ### The system between two steps -/

structure ThreadedProcess.Settled (p : ThreadedProcess) : Prop where
  pending : p.pending = []
  proposer : ∀ s, p.proposer = some s → s.Settled

section System

variable {cfg : Config} {D : Deployment cfg}

def ThreadedState.Settled (σ : ThreadedState D) : Prop := ∀ i, (σ.processes i).Settled

variable {σ τ : ThreadedState D} {ρ : SystemState D} {i : Fin D.processes}
  (guard : SystemState D → Action D → Prop)

@[simp] theorem setProcess_same (p : ThreadedProcess) : (σ.setProcess i p).processes i = p :=
  Function.update_self _ _ _

@[simp] theorem threaded_setProcess_self : σ.setProcess i (σ.processes i) = σ := by
  simp [ThreadedState.setProcess]

@[simp] theorem setProcess_setProcess (p q : ThreadedProcess) :
    (σ.setProcess i p).setProcess i q = σ.setProcess i q := by
  simp [ThreadedState.setProcess]

theorem view_setProcess (p : ThreadedProcess) :
    (σ.setProcess i p).view = σ.view.setProcess i p.view := by
  refine congrArg (SystemState.mk _) (funext fun j => ?_)
  by_cases hj : j = i
  · subst hj
    simp
  · simp [ThreadedState.setProcess, hj, ThreadedState.view]

theorem ThreadedState.Settled.setProcess (h : σ.Settled) {p : ThreadedProcess} (own : p.Settled) :
    (σ.setProcess i p).Settled := by
  intro j
  by_cases hj : j = i
  · subst hj
    rw [setProcess_same]
    exact own
  · simpa [ThreadedState.setProcess, hj] using h j

/-- Steps of the two threads. -/
abbrev ThreadedSteps : ThreadedState D → ThreadedState D → Prop :=
  Relation.ReflTransGen ((threadedSystem D).Moves (ThreadedMeets guard))

theorem client_steps {p : ThreadedProcess} {s t : ThreadState} (proposer : p.proposer = some s)
    (steps : Relation.ReflTransGen ClientStep s t) :
    ThreadedSteps guard (σ.setProcess i p) (σ.setProcess i { p with proposer := some t }) := by
  induction steps with
  | refl => rw [← proposer]
  | @tail u t _ step ih =>
      obtain ⟨event, client, hstep⟩ := step
      refine ih.tail ?_
      have hthread : (σ.setProcess i { p with proposer := some u }).thread i event =
          some (σ.setProcess i { p with proposer := some t }) := by
        simp [ThreadedState.thread, hstep]
      cases event with
      | call value => exact ⟨.call i value, ⟨nofun, trivial⟩, hthread⟩
      | fill => exact ⟨.fill i, ⟨nofun, trivial⟩, hthread⟩
      | arm => exact ⟨.arm i, ⟨nofun, trivial⟩, hthread⟩
      | returns => exact ⟨.returns i, ⟨nofun, trivial⟩, hthread⟩
      | timeout _ | deliver _ => exact client.elim

/-- The event thread makes a deliver call, and the client that it wakes returns. -/
theorem deliver_step {p : ThreadedProcess} {call : DeliverCall} {rest : List DeliverCall}
    {q : Process} (pending : p.pending = call :: rest)
    (settled : ∀ s, p.proposer = some s → s.Settled) (run : p.view.deliver call = some q) :
    ∃ p' : ThreadedProcess, p'.pending = rest ∧ (∀ s, p'.proposer = some s → s.Settled) ∧
      p'.view = q ∧ ThreadedSteps guard (σ.setProcess i p) (σ.setProcess i p') := by
  have hmeets : ThreadedMeets guard (σ.setProcess i p) (.deliver i) := by
    refine ⟨nofun, fun s hs call _ => (settled s ?_).keepsBuffer (.deliver call)⟩
    rwa [setProcess_same] at hs
  have hact : ∀ p', p.deliver = some p' →
      threadedAct (σ.setProcess i p) (.deliver i) = some (σ.setProcess i p') := by
    intro p' hp'
    simp only [threadedAct, setProcess_same, hp', Option.map_some, setProcess_setProcess]
  cases hs : p.proposer with
  | none =>
      refine ⟨{ p with pending := rest }, rfl, settled, ?_,
        .single ⟨.deliver i, hmeets, hact _ ?_⟩⟩
      · simpa [Process.deliver, ThreadedProcess.view, hs] using run
      · simp only [ThreadedProcess.deliver, pending, hs]
  | some s =>
      have hproposer : p.view.proposer = some s.toProposerState := by
        simp [ThreadedProcess.view, hs]
      simp only [Process.deliver, hproposer] at run
      obtain ⟨u, hu, rfl⟩ := Option.map_eq_some_iff.mp run
      obtain ⟨t, t', ht, hclient, hsettled, rfl⟩ := (settled s hs).deliver hu
      have hdeliver : p.deliver = some { p with
          proposer := some t
          leader := p.leader.map fun l => leaderDeliverValue l call.iid
          pending := rest } := by
        simp only [ThreadedProcess.deliver, pending, hs, ht, Option.map_some]
      refine ⟨_, rfl, ?_, rfl, .head ⟨.deliver i, hmeets, hact _ hdeliver⟩
        (client_steps guard rfl hclient)⟩
      intro v hv
      obtain rfl := Option.some.inj hv
      exact hsettled

/-- It makes one after the other. -/
theorem deliver_steps {p : ThreadedProcess} {calls : List DeliverCall} {q : Process}
    (pending : p.pending = calls) (settled : ∀ s, p.proposer = some s → s.Settled)
    (run : calls.foldlM Process.deliver p.view = some q) :
    ∃ p' : ThreadedProcess, p'.Settled ∧ p'.view = q ∧
      ThreadedSteps guard (σ.setProcess i p) (σ.setProcess i p') := by
  induction calls generalizing p with
  | nil => exact ⟨p, ⟨pending, settled⟩, Option.some.inj run, .refl⟩
  | cons call rest ih =>
      rw [List.foldlM_cons] at run
      obtain ⟨q₁, hq₁, hrest⟩ := Option.bind_eq_some_iff.mp run
      obtain ⟨p₁, hp₁, hsettled, rfl, hstep⟩ := deliver_step guard pending settled hq₁
      obtain ⟨p', hp', hview, hsteps⟩ := ih hp₁ hsettled hrest
      exact ⟨p', hp', hview, hstep.trans hsteps⟩

/-- One step of the event thread. -/
theorem event_step {a : ThreadedAction D} {p : ThreadedProcess} (h : σ.Settled)
    (move : threadedAct σ a = some (σ.setProcess i p)) (meets : ThreadedMeets guard σ a)
    (own : p.Settled) :
    ∃ τ : ThreadedState D, τ.Settled ∧ τ.view = σ.view.setProcess i p.view ∧
      ThreadedSteps guard σ τ :=
  ⟨_, h.setProcess own, view_setProcess p, .single ⟨a, meets, move⟩⟩

theorem receive_steps (h : σ.Settled) {msg : PaxosMsg} (sent : msg ∈ σ.view.fromAcceptors)
    (ok : guard σ.view (.receive i msg)) {q : Process}
    (run : (σ.processes i).view.receive cfg msg = some q) :
    ∃ τ : ThreadedState D, τ.Settled ∧ τ.view = σ.view.setProcess i q ∧
      ThreadedSteps guard σ τ := by
  have hmeets : ThreadedMeets guard σ (.receive i msg) :=
    ⟨fun base hbase => Option.some.inj hbase ▸ ok, trivial⟩
  have hmove : threadedAct σ (.receive i msg) =
      some (σ.setProcess i ((σ.processes i).receive cfg msg)) := by
    simp only [threadedAct, (h i).pending, if_true, if_pos sent]
  cases hdata : msg.data with
  | learn lmsg =>
      simp only [Process.receive, hdata] at run
      simp only [ThreadedProcess.receive, hdata] at hmove
      let p : ThreadedProcess := { σ.processes i with
        learner := learnerHandleLearnMsg cfg (σ.processes i).learner lmsg
        pending := newDeliveries (σ.processes i).learner
          (learnerHandleLearnMsg cfg (σ.processes i).learner lmsg) }
      obtain ⟨p', hp', rfl, hsteps⟩ :=
        deliver_steps guard (show p.pending = _ from rfl) (h i).proposer run
      exact ⟨_, h.setProcess hp', view_setProcess p', .head ⟨_, hmeets, hmove⟩ hsteps⟩
  | promise batch =>
      simp only [Process.receive, hdata] at run
      simp only [ThreadedProcess.receive, hdata] at hmove
      obtain rfl := Option.some.inj run
      exact event_step guard h hmove hmeets ⟨(h i).pending, (h i).proposer⟩
  | prepare _ | accept _ | lsync _ | anyval _ =>
      simp only [Process.receive, hdata] at run
      simp only [ThreadedProcess.receive, hdata] at hmove
      obtain rfl := Option.some.inj run
      exact event_step guard h hmove hmeets (h i)

/-- The two threads follow every step of the system. -/
theorem ThreadedState.Settled.follow (h : σ.Settled) {action : Action D}
    (ok : guard σ.view action) (move : act σ.view action = some ρ) :
    ∃ τ : ThreadedState D, τ.Settled ∧ τ.view = ρ ∧ ThreadedSteps guard σ τ := by
  have hmeets : ∀ a : ThreadedAction D, a.action? = some action → BuffersKept σ a →
      ThreadedMeets guard σ a := fun a ha kept =>
    ⟨fun base hbase => Option.some.inj (ha.symm.trans hbase) ▸ ok, kept⟩
  cases action with
  | acceptor a msg =>
      obtain ⟨sent, hrun⟩ := Option.ite_none_right_eq_some.mp move
      obtain ⟨s, hs, rfl⟩ := Option.map_eq_some_iff.mp hrun
      have hmove : threadedAct σ (.acceptor a msg) = some (σ.setAcceptor a s) := by
        have hs : handleMessage cfg (D.disk a) (σ.acceptors a) msg = some s := hs
        simp only [threadedAct, if_pos sent, hs, Option.map_some]
      exact ⟨σ.setAcceptor a s, h, rfl, .single ⟨_, hmeets (.acceptor a msg) rfl trivial, hmove⟩⟩
  | receive i msg =>
      obtain ⟨sent, hrun⟩ := Option.ite_none_right_eq_some.mp move
      obtain ⟨q, hq, rfl⟩ := Option.map_eq_some_iff.mp hrun
      exact receive_steps guard h sent ok hq
  | lsyncTimer i =>
      obtain rfl := Option.some.inj move
      have hmove : threadedAct σ (.lsyncTimer i) = _ := if_pos (h i).pending
      exact event_step guard h hmove (hmeets (.lsyncTimer i) rfl trivial)
        ⟨(h i).pending, (h i).proposer⟩
  | phase1Timer i =>
      obtain ⟨l, hl, rfl⟩ := Option.map_eq_some_iff.mp move
      have hl : (σ.processes i).leader = some l := hl
      have hmove : threadedAct σ (.phase1Timer i) = some (σ.setProcess i
          { σ.processes i with leader := some (phase1CheckCb cfg l) }) := by
        simp only [threadedAct, (h i).pending, if_true, hl, Option.map_some]
      exact event_step guard h hmove (hmeets _ rfl trivial) ⟨(h i).pending, (h i).proposer⟩
  | phase2Timer i =>
      obtain ⟨l, hl, rfl⟩ := Option.map_eq_some_iff.mp move
      have hl : (σ.processes i).leader.bind (phase2CheckCb cfg) = some l := hl
      have hmove : threadedAct σ (.phase2Timer i) = some (σ.setProcess i
          { σ.processes i with leader := some l }) := by
        simp only [threadedAct, (h i).pending, if_true, hl, Option.map_some]
      exact event_step guard h hmove (hmeets _ rfl trivial) ⟨(h i).pending, (h i).proposer⟩
  | timeout i ti =>
      obtain ⟨u, hu, hrun⟩ := Option.bind_eq_some_iff.mp move
      obtain ⟨armed, hρ⟩ := Option.ite_none_right_eq_some.mp hrun
      obtain rfl := Option.some.inj hρ
      obtain ⟨s, hs, rfl⟩ := Option.map_eq_some_iff.mp hu
      obtain ⟨hsettled, hview⟩ := ((h i).proposer s hs).timeout ti
      have hmove : threadedAct σ (.timeout i ti) = some (σ.setProcess i
          { σ.processes i with proposer := some (threadCheckTimeout s ti) }) := by
        simp [threadedAct, (h i).pending, ThreadedState.thread, hs, threadStep, armed]
      rw [← hview]
      refine event_step guard h hmove ⟨fun _ hbase => (by cases hbase), trivial⟩ ⟨(h i).pending, ?_⟩
      intro t ht
      obtain rfl := Option.some.inj ht
      exact hsettled
  | submit i value =>
      obtain ⟨u, hu, hrun⟩ := Option.bind_eq_some_iff.mp move
      obtain ⟨woken, hρ⟩ := Option.ite_none_right_eq_some.mp hrun
      obtain rfl := Option.some.inj hρ
      obtain ⟨s, hs, rfl⟩ := Option.map_eq_some_iff.mp hu
      obtain ⟨t, hsteps, hsettled, hview⟩ := ((h i).proposer s hs).submit woken value
      rw [← hview]
      let p : ThreadedProcess := { σ.processes i with proposer := some t }
      have hown : p.Settled := by
        refine ⟨(h i).pending, fun v hv => ?_⟩
        obtain rfl := Option.some.inj hv
        exact hsettled
      have hmoves : ThreadedSteps guard (σ.setProcess i (σ.processes i)) (σ.setProcess i p) :=
        client_steps guard hs hsteps
      rw [threaded_setProcess_self] at hmoves
      exact ⟨_, h.setProcess hown, view_setProcess p, hmoves⟩

theorem threadedStart_settled : (threadedStart D).Settled := by
  intro i
  refine ⟨rfl, fun s hs => ?_⟩
  obtain ⟨u, hu, rfl⟩ := Option.map_eq_some_iff.mp hs
  exact .idle rfl (start_idle hu).1

theorem threadedStart_view : (threadedStart D).view = systemStart D := by
  refine congrArg (SystemState.mk _) (funext fun i => ?_)
  change ((D.role i).threadedStart cfg).view = (D.role i).start cfg
  have hsame : (ThreadState.toProposerState ∘ threadStart) = id := rfl
  simp only [ThreadedProcess.view, Role.threadedStart, Option.map_map, hsame, Option.map_id_fun,
    id_eq]

/-- Every run of the system is a run of the two threads that meets their condition. -/
theorem system_serial (h : Reachable (system D) guard ρ) :
    ∃ σ : ThreadedState D, Reachable (threadedSystem D) (ThreadedMeets guard) σ ∧ σ.view = ρ := by
  suffices ∃ σ : ThreadedState D, Reachable (threadedSystem D) (ThreadedMeets guard) σ ∧
      σ.Settled ∧ σ.view = ρ by
    obtain ⟨σ, hσ, -, hview⟩ := this
    exact ⟨σ, hσ, hview⟩
  refine reachable_of_realised ThreadedState.Settled ?_ ?_ h
  · intro ρ hρ
    obtain rfl := hρ
    exact ⟨threadedStart D, rfl, threadedStart_settled, threadedStart_view⟩
  · intro σ action ρ settled ok move
    exact settled.follow guard ok move

end System
end LibFastPaxos
