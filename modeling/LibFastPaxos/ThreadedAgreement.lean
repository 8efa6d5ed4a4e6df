import LibFastPaxos.SerialRuns
import LibFastPaxos.TotalOrder

/-!
Agreement of the system with two threads. Beside every run there is a shadow in which a
call is made, sends its accept and waits in one step, when the client thread takes the
locked block. What the threads send the shadow has sent, as long as no buffer is moved on
before it is filled; acceptors, learners and leader are the same.
-/

namespace LibFastPaxos

open Transition History

/-! ### A proposer and its shadow -/

/-- The accept of a call for the instance of the buffer. -/
def ThreadState.acceptFor (s : ThreadState) (value : Bytes) : AcceptMsg where
  iid := s.amsg.iid
  ballot := s.fixedBallot
  valueSize := value.length
  proposerId := s.proposerId
  value := value

structure ThreadShadow (s : ThreadState) (p : ProposerState) : Prop where
  id_eq : p.proposerId = s.proposerId
  ballot_eq : p.fixedBallot = s.fixedBallot
  current_eq : p.currentIid = s.currentIid
  waiting_eq : p.clientWaiting = s.clientWaiting
  /-- A buffer that was filled is the proposer's own. -/
  own : s.msgSize ≠ 0 → s.amsg.ballot = s.fixedBallot ∧ s.amsg.proposerId = s.proposerId
  buffer : s.clientWaiting = true → ∀ value, s.client.value? = some value →
    p.size = sizeofAcceptMsg + value.length ∧ p.amsg = s.acceptFor value
  offered : ∀ value, s.client.value? = some value → acceptPacket (s.acceptFor value) ∈ p.sent
  sent : s.sent ⊆ p.sent
  submitted : ∀ value, ProposerEffect.submit value ∈ p.trace ↔
    ProposerEffect.submit value ∈ s.trace

section Thread

variable {s t : ThreadState} {p q : ProposerState} {value : Bytes}

theorem threadStart_shadow (idle : p.clientWaiting = false) :
    ThreadShadow (threadStart p) p := by
  refine ⟨rfl, rfl, rfl, rfl, fun filled => absurd rfl filled, ?_, nofun, List.Subset.refl _,
    fun _ => Iff.rfl⟩
  intro waiting
  rw [show (threadStart p).clientWaiting = p.clientWaiting from rfl, idle] at waiting
  cases waiting

/-- What is in a buffer that holds the value of the call. -/
theorem ThreadShadow.packet_eq (h : ThreadShadow s p) (holds : s.Holds value)
    (filled : s.msgSize ≠ 0) :
    ({ size := s.size, data := .accept s.amsg } : PaxosMsg) = acceptPacket (s.acceptFor value) := by
  obtain ⟨hballot, hid⟩ := h.own filled
  have hamsg : s.acceptFor value = s.amsg := by
    rw [ThreadState.acceptFor, ← hballot, ← hid, ← holds.valueSize_eq, ← holds.value_eq]
  rw [acceptPacket, hamsg, holds.size_eq, holds.valueSize_eq]

/-- The buffer is sent: the shadow has sent the same accept. -/
theorem ThreadShadow.udpSend (h : ThreadShadow s p) (hvalue : s.client.value? = some value)
    (ready : s.Ready value) : ThreadShadow s.udpSend p := by
  simp only [ThreadState.udpSend]
  split
  · exact h
  · next filled =>
      have hpacket := h.packet_eq (ready.resolve_left filled) filled
      refine ⟨h.id_eq, h.ballot_eq, h.current_eq, h.waiting_eq, h.own, h.buffer, h.offered, ?_, ?_⟩
      · intro packet hp
        cases List.mem_cons.mp hp with
        | inl heq =>
            rw [heq, hpacket]
            exact h.offered value hvalue
        | inr hold => exact h.sent hold
      · intro v
        rw [h.submitted v]
        simp [ProposerState.sendBuffer, ProposerState.emit]

theorem ThreadShadow.setTimeout (h : ThreadShadow s p) (instanceId hash : Int) :
    ThreadShadow (s.setProposerCheckTimeout instanceId hash) p :=
  ⟨h.id_eq, h.ballot_eq, h.current_eq, h.waiting_eq, h.own, h.buffer, h.offered, h.sent,
    h.submitted⟩

/-- The shadow submits at once when the client thread takes the locked block. -/
theorem ThreadShadow.call (h : ThreadShadow s p) (ok : ThreadOk s) (idle : s.client = .idle)
    (value : Bytes) :
    ∃ q, proposerStep p (.submit value) = some q ∧ ThreadShadow (threadCall s value) q := by
  have hnone : s.client.value? = none := by rw [idle]; rfl
  have hwaiting := ok.idle hnone
  refine ⟨proposerSubmitValue p value, if_pos (h.waiting_eq.trans hwaiting), ?_⟩
  have hsubmitted : ∀ v, ProposerEffect.submit v ∈ ProposerEffect.submit value :: p.trace ↔
      ProposerEffect.submit v ∈ ProposerEffect.submit value :: s.trace := by
    intro v
    rw [List.mem_cons, List.mem_cons, h.submitted v]
  simp only [threadCall, proposerSubmitValue]
  split
  · refine ⟨h.id_eq, h.ballot_eq, h.current_eq, h.waiting_eq, h.own, h.buffer, ?_, h.sent, ?_⟩
    · intro v hv
      rw [hnone] at hv
      cases hv
    · intro v
      have := hsubmitted v
      simpa [ProposerState.emit] using this
  · have hamsg : ({ iid := p.currentIid, ballot := p.fixedBallot, valueSize := value.length
                    proposerId := p.proposerId, value := value } : AcceptMsg) =
        { iid := s.currentIid, ballot := s.fixedBallot, valueSize := value.length
          proposerId := s.proposerId, value := value } := by
      rw [h.current_eq, h.ballot_eq, h.id_eq]
    refine ⟨h.id_eq, h.ballot_eq, h.current_eq, rfl, h.own, ?_, ?_, ?_, ?_⟩
    · intro _ v hv
      obtain rfl := Option.some.inj hv
      exact ⟨rfl, hamsg⟩
    · intro v hv
      obtain rfl := Option.some.inj hv
      exact List.mem_cons.mpr (.inl (congrArg acceptPacket hamsg).symm)
    · exact List.subset_cons_of_subset _ h.sent
    · intro v
      have := hsubmitted v
      simpa [ProposerState.emit, ProposerState.sendBuffer,
        ProposerState.setProposerCheckTimeout] using this

theorem ThreadShadow.fill (h : ThreadShadow s p) (hclient : s.client = .filling value) :
    ThreadShadow (threadFill s value) p := by
  have hvalue : s.client.value? = some value := by rw [hclient]; rfl
  have hsame : ∀ v, some value = some v → s.client.value? = some v := fun v hv => hvalue.trans hv
  simp only [threadFill]
  refine @ThreadShadow.udpSend _ p value ⟨h.id_eq, h.ballot_eq, h.current_eq, h.waiting_eq,
    fun _ => ⟨rfl, rfl⟩, fun hw v hv => h.buffer hw v (hsame v hv),
    fun v hv => h.offered v (hsame v hv), h.sent, h.submitted⟩ rfl (.inr ⟨rfl, rfl, rfl⟩)

theorem ThreadShadow.arm (h : ThreadShadow s p) (hclient : s.client = .arming value) :
    ThreadShadow (threadArm s value) p := by
  have hvalue : s.client.value? = some value := by rw [hclient]; rfl
  have hsame : ∀ v, some value = some v → s.client.value? = some v := fun v hv => hvalue.trans hv
  exact ⟨h.id_eq, h.ballot_eq, h.current_eq, h.waiting_eq, h.own,
    fun hw v hv => h.buffer hw v (hsame v hv), fun v hv => h.offered v (hsame v hv), h.sent,
    h.submitted⟩

theorem ThreadShadow.return (h : ThreadShadow s p) :
    ThreadShadow { s with client := .idle, trace := .returned :: s.trace } p := by
  refine ⟨h.id_eq, h.ballot_eq, h.current_eq, h.waiting_eq, h.own, nofun, nofun, h.sent, ?_⟩
  intro v
  rw [h.submitted v]
  simp

/-- The shadow's timeouts never go off: what they would send it has sent already. -/
theorem ThreadShadow.checkTimeout (h : ThreadShadow s p) (ok : ThreadOk s) {ti : TimeoutInfo}
    (armed : ti ∈ s.timers) : ThreadShadow (threadCheckTimeout s ti) p := by
  have hless : ∀ hash,
      ThreadShadow { s with lastAcceptHash := hash, timers := s.timers.erase ti } p :=
    fun _ => ⟨h.id_eq, h.ballot_eq, h.current_eq, h.waiting_eq, h.own, h.buffer, h.offered, h.sent,
      h.submitted⟩
  simp only [threadCheckTimeout]
  split
  · next hmatch =>
      obtain ⟨hwaiting, hinstance, -⟩ := hmatch
      obtain ⟨value, hvalue⟩ := ok.value_of_waiting hwaiting
      have hready : s.Ready value := ok.ready_of_filled hvalue fun hclient =>
        ok.ready_of_timeout armed hwaiting hinstance hclient
      refine ((hless (s.lastAcceptHash + 1)).udpSend hvalue ?_).setTimeout _ _
      exact hready.imp_right fun hv => hv.of_buffer rfl rfl rfl
  · exact hless s.lastAcceptHash

theorem proposerDeliverCallback_of_outcome {call : DeliverCall} (hiid : call.iid = p.currentIid)
    (outcome : DeliverOutcome p call q) : proposerDeliverCallback p call = some q := by
  simp only [proposerDeliverCallback, callClient_eq, ProposerState.emit]
  rw [if_neg (by simpa using hiid.symm)]
  cases outcome with
  | idle waiting => rw [if_pos waiting]
  | woken waiting own =>
      rw [if_neg (by simp [waiting]), if_pos own.symm]
      rfl
  | resent waiting other =>
      rw [if_neg (by simp [waiting]), if_neg (Ne.symm other)]
      rfl

/-- The shadow is called with the same deliver calls. -/
theorem ThreadShadow.deliver (h : ThreadShadow s p) (ok : ThreadOk s) {call : DeliverCall}
    (hiid : call.iid = s.currentIid) (delivery : ThreadDelivery s call t)
    (keeps : KeepsBuffer s (.deliver call)) :
    ∃ q, proposerStep p (.deliver call) = some q ∧ ThreadShadow t q := by
  have hcall : call.iid = p.currentIid := hiid.trans h.current_eq.symm
  have hnext : p.currentIid + 1 = s.currentIid + 1 := by rw [h.current_eq]
  have hpackets : ∀ (u : ProposerState) (trace : List ProposerEffect) packet,
      packet ∈ (u.told call ++ .deliver call :: trace).filterMap ProposerEffect.sent? ↔
        packet ∈ trace.filterMap ProposerEffect.sent? := by
    intro u trace packet
    rw [told_sent]
  have htold : ∀ (u : ProposerState) v,
      ProposerEffect.submit v ∈ u.told call ++ .deliver call :: s.trace ↔
        ProposerEffect.submit v ∈ s.trace := by
    intro u v
    simp [submit_not_told]
  have htold' : ∀ v, ProposerEffect.submit v ∈ p.told call ++ .deliver call :: p.trace ↔
      ProposerEffect.submit v ∈ p.trace := by
    intro v
    simp [submit_not_told]
  cases delivery with
  | idle waiting =>
      refine ⟨_, proposerDeliverCallback_of_outcome hcall (.idle (h.waiting_eq.trans waiting)),
        h.id_eq, h.ballot_eq, hnext, h.waiting_eq, h.own, h.buffer, h.offered, h.sent, ?_⟩
      intro v
      simpa using h.submitted v
  | woken waiting own =>
      refine ⟨_, proposerDeliverCallback_of_outcome hcall
        (.woken (h.waiting_eq.trans waiting) (own.trans h.id_eq.symm)),
        h.id_eq, h.ballot_eq, hnext, rfl, h.own, nofun, ?_, ?_, ?_⟩
      · intro v hv
        exact (hpackets p p.trace _).mpr (h.offered v hv)
      · intro packet hp
        have hold : packet ∈ s.sent := (hpackets s.toProposerState s.trace packet).mp hp
        exact (hpackets p p.trace packet).mpr (h.sent hold)
      · intro v
        rw [List.mem_cons, htold', h.submitted v, htold]
        simp
  | resent waiting other =>
      obtain ⟨value, hvalue⟩ := ok.value_of_waiting waiting
      obtain ⟨hsize, hamsg⟩ := h.buffer waiting value hvalue
      have hready : s.Ready value := ok.ready_of_filled hvalue fun hclient =>
        keeps value hclient waiting other
      have hmoved : ({ p.amsg with iid := p.currentIid + 1 } : AcceptMsg) =
          (s.moveOn call).acceptFor value := by
        rw [hamsg, hnext]
        rfl
      refine ⟨_, proposerDeliverCallback_of_outcome hcall
        (.resent (h.waiting_eq.trans waiting) (fun heq => other (heq.trans h.id_eq))), ?_⟩
      refine ThreadShadow.setTimeout (ThreadShadow.udpSend (s := s.moveOn call) ?_ hvalue
        (hready.moveOn call)) _ _
      refine ⟨h.id_eq, h.ballot_eq, hnext, h.waiting_eq, h.own, ?_, ?_, ?_, ?_⟩
      · intro _ v hv
        obtain rfl := Option.some.inj (hvalue.symm.trans hv)
        exact ⟨hsize, hmoved⟩
      · intro v hv
        obtain rfl := Option.some.inj (hvalue.symm.trans hv)
        refine List.mem_cons.mpr (.inl ?_)
        rw [hmoved, hsize]
        rfl
      · intro packet hp
        have hold : packet ∈ s.sent := (hpackets s.toProposerState s.trace packet).mp hp
        exact List.mem_cons_of_mem _ ((hpackets p p.trace packet).mpr (h.sent hold))
      · intro v
        rw [List.mem_cons, htold', h.submitted v]
        simp [ThreadState.moveOn, submit_not_told]

/-- The other steps of the threads leave the shadow where it is. -/
theorem ThreadShadow.quiet (h : ThreadShadow s p) (ok : ThreadOk s) {event : ThreadEvent}
    (move : threadStep s event = some t) (noCall : ∀ v, event ≠ .call v)
    (noDeliver : ∀ call, event ≠ .deliver call) : ThreadShadow t p := by
  cases event with
  | call v => exact absurd rfl (noCall v)
  | deliver call => exact absurd rfl (noDeliver call)
  | fill =>
      simp only [threadStep] at move
      split at move
      · next value hclient =>
          obtain rfl := Option.some.inj move
          exact h.fill hclient
      · cases move
  | arm =>
      simp only [threadStep] at move
      split at move
      · next value hclient =>
          obtain rfl := Option.some.inj move
          exact h.arm hclient
      · cases move
  | returns =>
      simp only [threadStep] at move
      split at move
      · obtain ⟨-, ht⟩ := Option.ite_none_right_eq_some.mp move
        obtain rfl := Option.some.inj ht
        exact h.return
      · cases move
  | timeout ti =>
      obtain ⟨armed, ht⟩ := Option.ite_none_right_eq_some.mp move
      obtain rfl := Option.some.inj ht
      exact h.checkTimeout ok armed

theorem threadDeliverCallback_iid {call : DeliverCall}
    (run : threadDeliverCallback s call = some t) : call.iid = s.currentIid := by
  simp only [threadDeliverCallback] at run
  split at run
  · cases run
  · next same => exact (not_not.mp same).symm

end Thread

/-! ### A process and its shadow -/

structure ProcessShadow (p : ThreadedProcess) (q : Process) : Prop where
  learner : q.learner = p.learner
  leader : q.leader = p.leader
  proposer : ∀ s, p.proposer = some s → ∃ u, q.proposer = some u ∧ ThreadOk s ∧ ThreadShadow s u
  no_proposer : p.proposer = none → q.proposer = none
  pending : p.pending.reverse <+: p.learner.delivered

section Process

variable {cfg : Config} {p p' : ThreadedProcess} {q q' : Process}

theorem ProcessShadow.sent (h : ProcessShadow p q) : p.view.sent ⊆ q.sent := by
  intro packet hp
  rw [mem_sent] at hp ⊢
  cases hp with
  | inl learner => exact .inl (h.learner ▸ learner)
  | inr other =>
      refine .inr (other.imp (fun proposer => ?_) fun leader => ?_)
      · obtain ⟨s, hs, hmem⟩ := proposer
        obtain ⟨u, hu, rfl⟩ := Option.map_eq_some_iff.mp hs
        obtain ⟨v, hv, -, hshadow⟩ := h.proposer u hu
        exact ⟨v, hv, hshadow.sent hmem⟩
      · exact h.leader ▸ leader

theorem ProcessShadow.submitted (h : ProcessShadow p q) (value : Bytes) :
    p.view.Submitted value ↔ q.Submitted value := by
  cases hs : p.proposer with
  | none =>
      simp [Process.Submitted, ThreadedProcess.view, hs, h.no_proposer hs]
  | some s =>
      obtain ⟨u, hu, -, hshadow⟩ := h.proposer s hs
      simp [Process.Submitted, ThreadedProcess.view, hs, hu, hshadow.submitted value]

/-- The proposer has taken a step, and its shadow too or not. -/
theorem ProcessShadow.propose (h : ProcessShadow p q) {t : ThreadState} {u : ProposerState}
    (ok : ThreadOk t) (shadow : ThreadShadow t u) :
    ProcessShadow { p with proposer := some t } { q with proposer := some u } := by
  refine ⟨h.learner, h.leader, fun s hs => ?_, nofun, h.pending⟩
  obtain rfl := Option.some.inj hs
  exact ⟨u, rfl, ok, shadow⟩

theorem ProcessShadow.propose_quiet (h : ProcessShadow p q) {t : ThreadState} {u : ProposerState}
    (proposer : q.proposer = some u) (ok : ThreadOk t) (shadow : ThreadShadow t u) :
    ProcessShadow { p with proposer := some t } q := by
  refine ⟨h.learner, h.leader, fun s hs => ?_, nofun, h.pending⟩
  obtain rfl := Option.some.inj hs
  exact ⟨u, proposer, ok, shadow⟩

theorem ProcessShadow.lead (h : ProcessShadow p q) (l : Option LeaderState) :
    ProcessShadow { p with leader := l } { q with leader := l } :=
  ⟨h.learner, rfl, h.proposer, h.no_proposer, h.pending⟩

theorem ProcessShadow.learn (h : ProcessShadow p q) (lmsg : LearnMsg) :
    ProcessShadow
      { p with
        learner := learnerHandleLearnMsg cfg p.learner lmsg
        pending := newDeliveries p.learner (learnerHandleLearnMsg cfg p.learner lmsg) }
      { q with learner := learnerHandleLearnMsg cfg q.learner lmsg } := by
  refine ⟨?_, h.leader, h.proposer, h.no_proposer, ?_⟩
  · rw [h.learner]
  · simp only [newDeliveries, List.reverse_reverse]
    exact List.take_prefix _ _

end Process

/-! ### The system and its shadow -/

section System

variable {cfg : Config} {D : Deployment cfg}

structure SystemShadow (σ : ThreadedState D) (ρ : SystemState D) : Prop where
  acceptors : ρ.acceptors = σ.acceptors
  processes : ∀ i, ProcessShadow (σ.processes i) (ρ.processes i)

variable {σ τ : ThreadedState D} {ρ : SystemState D}

theorem SystemShadow.fromAcceptors (h : SystemShadow σ ρ) :
    σ.view.fromAcceptors = ρ.fromAcceptors := by
  simp only [SystemState.fromAcceptors, h.acceptors]
  rfl

theorem SystemShadow.toAcceptors (h : SystemShadow σ ρ) :
    σ.view.toAcceptors ⊆ ρ.toAcceptors := by
  intro packet hp
  obtain ⟨i, hi⟩ := mem_toAcceptors.mp hp
  exact mem_toAcceptors.mpr ⟨i, (h.processes i).sent hi⟩

theorem SystemShadow.setAcceptor (h : SystemShadow σ ρ) (a : Fin cfg.nOfAcceptors)
    (s : AcceptorState) : SystemShadow (σ.setAcceptor a s) (ρ.setAcceptor a s) := by
  refine ⟨?_, h.processes⟩
  simp only [SystemState.setAcceptor, ThreadedState.setAcceptor, h.acceptors]

theorem SystemShadow.setProcess (h : SystemShadow σ ρ) {i : Fin D.processes}
    {p : ThreadedProcess} {q : Process} (own : ProcessShadow p q) :
    SystemShadow (σ.setProcess i p) (ρ.setProcess i q) := by
  refine ⟨h.acceptors, fun j => ?_⟩
  by_cases hj : j = i
  · subst hj
    simpa [SystemState.setProcess, ThreadedState.setProcess] using own
  · simpa [SystemState.setProcess, ThreadedState.setProcess, hj] using h.processes j

/-- A step that the shadow does not take. -/
theorem SystemShadow.still (h : SystemShadow σ ρ) {i : Fin D.processes} {p : ThreadedProcess}
    (own : ProcessShadow p (ρ.processes i)) : SystemShadow (σ.setProcess i p) ρ := by
  refine ⟨h.acceptors, fun j => ?_⟩
  by_cases hj : j = i
  · subst hj
    simpa [ThreadedState.setProcess] using own
  · simpa [ThreadedState.setProcess, hj] using h.processes j

theorem threadedStart_shadow : SystemShadow (threadedStart D) (systemStart D) := by
  refine ⟨rfl, fun i => ?_⟩
  refine ⟨rfl, rfl, ?_, ?_, List.nil_prefix⟩
  · intro s hs
    obtain ⟨u, hu, rfl⟩ := Option.map_eq_some_iff.mp hs
    obtain ⟨idle, timers⟩ := start_idle hu
    exact ⟨u, hu, threadStart_ok idle timers (start_trace hu), threadStart_shadow idle⟩
  · exact fun hnone => Option.map_eq_none_iff.mp hnone

section Steps

variable {cond : DiskEnv → AcceptorState → AcceptorOp → Prop}
  {learned : SystemState D → LearnMsg → Prop} {justified : SystemState D → AcceptMsg → Prop}
  {pick : SystemState D → ProposerRecord → PromiseInfo → Prop}
  {guard : SystemState D → Action D → Prop}

/-- The client thread or a timeout takes a step that the shadow has taken before. -/
theorem SystemShadow.quiet (h : SystemShadow σ ρ) {i : Fin D.processes} {event : ThreadEvent}
    (move : σ.thread i event = some τ) (noCall : ∀ v, event ≠ .call v)
    (noDeliver : ∀ call, event ≠ .deliver call) : SystemShadow τ ρ := by
  obtain ⟨s, hs, hrun⟩ := Option.bind_eq_some_iff.mp move
  obtain ⟨t, ht, rfl⟩ := Option.map_eq_some_iff.mp hrun
  obtain ⟨u, hu, hok, hshadow⟩ := (h.processes i).proposer s hs
  have hkeeps : KeepsBuffer s event := by
    cases event with
    | deliver call => exact absurd rfl (noDeliver call)
    | call _ | fill | arm | returns | timeout _ => trivial
  exact h.still ((h.processes i).propose_quiet hu (hok.step ht hkeeps)
    (hshadow.quiet hok ht noCall noDeliver))

theorem SystemShadow.call (keeps : KeepsOk D cond learned justified pick guard)
    (h : SystemShadow σ ρ) (ok : SystemOk cond learned justified ρ) {i : Fin D.processes}
    {value : Bytes} (move : σ.thread i (.call value) = some τ) :
    ∃ ρ', SystemOk cond learned justified ρ' ∧ SystemShadow τ ρ' := by
  obtain ⟨s, hs, hrun⟩ := Option.bind_eq_some_iff.mp move
  obtain ⟨t, ht, rfl⟩ := Option.map_eq_some_iff.mp hrun
  obtain ⟨u, hu, hok, hshadow⟩ := (h.processes i).proposer s hs
  have hok' := hok.step ht trivial
  obtain ⟨idle, htaken⟩ := Option.ite_none_right_eq_some.mp ht
  obtain rfl := Option.some.inj htaken
  obtain ⟨q, hq, hshadow'⟩ := hshadow.call hok idle value
  obtain ⟨hprocess, hgrows⟩ := (ok.processes i).act hu hq nofun
  exact ⟨_, ok.setProcess keeps hprocess hgrows,
    h.setProcess ((h.processes i).propose hok' hshadow')⟩

/-- The event thread makes the next of its deliver calls, and the shadow makes it too. -/
theorem SystemShadow.deliver (keeps : KeepsOk D cond learned justified pick guard)
    (h : SystemShadow σ ρ) (ok : SystemOk cond learned justified ρ) {i : Fin D.processes}
    {p : ThreadedProcess} (run : (σ.processes i).deliver = some p)
    (buffers : BuffersKept σ (.deliver i)) :
    ∃ ρ', SystemOk cond learned justified ρ' ∧ SystemShadow (σ.setProcess i p) ρ' := by
  have hown := h.processes i
  unfold ThreadedProcess.deliver at run
  split at run
  · cases run
  · next call rest hpending =>
      have hprefix : rest.reverse ++ [call] <+: (σ.processes i).learner.delivered := by
        rw [← List.reverse_cons, ← hpending]
        exact hown.pending
      have hrest : rest.reverse <+: (σ.processes i).learner.delivered :=
        (List.prefix_append _ _).trans hprefix
      split at run
      · next hnone =>
          obtain rfl := Option.some.inj run
          exact ⟨ρ, ok, h.still ⟨hown.learner, hown.leader, hown.proposer, hown.no_proposer, hrest⟩⟩
      · next s hs =>
          obtain ⟨t, ht, rfl⟩ := Option.map_eq_some_iff.mp run
          obtain ⟨u, hu, hok, hshadow⟩ := hown.proposer s hs
          have hmove : threadStep s (.deliver call) = some t := ht
          have hkeeps : KeepsBuffer s (.deliver call) :=
            buffers s hs call (by rw [hpending]; rfl)
          obtain ⟨q, hq, hshadow'⟩ := hshadow.deliver hok (threadDeliverCallback_iid ht)
            (threadDeliverCallback_delivery ht) hkeeps
          have hcalled : call ∈ (ρ.processes i).learner.delivered := by
            rw [hown.learner]
            exact hprefix.subset (List.mem_append_right _ List.mem_cons_self)
          have hdeliver : (ρ.processes i).deliver call = some { ρ.processes i with
              proposer := some q
              leader := (ρ.processes i).leader.map fun l => leaderDeliverValue l call.iid } := by
            have hq : proposerDeliverCallback u call = some q := hq
            simp only [Process.deliver, hu, hq, Option.map_some]
          obtain ⟨hprocess, hgrows, -⟩ := (ok.processes i).deliver hcalled hdeliver
          refine ⟨_, ok.setProcess keeps hprocess hgrows, h.setProcess ?_⟩
          refine ⟨hown.learner, ?_, ?_, fun hnone => (by cases hnone), hrest⟩
          · rw [hown.leader]
          · intro v hv
            obtain rfl := Option.some.inj hv
            exact ⟨q, rfl, hok.step hmove hkeeps, hshadow'⟩

/-- A condition that asks nothing of learners and proposers. -/
def Transfers (guard : SystemState D → Action D → Prop) : Prop :=
  ∀ σ ρ : SystemState D, ρ.acceptors = σ.acceptors →
    (∀ i, (ρ.processes i).leader = (σ.processes i).leader) →
    ∀ action, guard σ action → guard ρ action

theorem SystemShadow.receive (keeps : KeepsOk D cond learned justified pick guard)
    (h : SystemShadow σ ρ) (ok : SystemOk cond learned justified ρ) {i : Fin D.processes}
    {msg : PaxosMsg} (sent : msg ∈ ρ.fromAcceptors) (meets : guard ρ (.receive i msg)) :
    ∃ ρ', SystemOk cond learned justified ρ' ∧
      SystemShadow (σ.setProcess i ((σ.processes i).receive cfg msg)) ρ' := by
  unfold ThreadedProcess.receive
  split
  · next lmsg data =>
      obtain ⟨a, ha⟩ := mem_fromAcceptors.mp sent
      obtain ⟨hprocess, hgrows⟩ :=
        (ok.processes i).learn (keeps.learned_sent ρ a msg lmsg ok ha data)
      exact ⟨_, ok.setProcess keeps hprocess hgrows, h.setProcess ((h.processes i).learn lmsg)⟩
  · next batch data =>
      have move : act ρ (.receive i msg) = some (ρ.setProcess i { ρ.processes i with
          leader := (σ.processes i).leader.map fun l => leaderHandlePromiseMsg cfg l batch }) := by
        simp only [act, if_pos sent, Process.receive, data, Option.map_some,
          (h.processes i).leader]
      exact ⟨_, ok.step keeps meets move, h.setProcess ((h.processes i).lead _)⟩
  · exact ⟨ρ, ok, h.still (h.processes i)⟩

/-- The shadow follows every step. -/
theorem SystemShadow.step (keeps : KeepsOk D cond learned justified pick guard)
    (transfers : Transfers guard) (h : SystemShadow σ ρ)
    (ok : SystemOk cond learned justified ρ) {action : ThreadedAction D}
    (meets : ThreadedMeets guard σ action) (move : threadedAct σ action = some τ) :
    ∃ ρ', SystemOk cond learned justified ρ' ∧ SystemShadow τ ρ' := by
  have hmeets : ∀ base, action.action? = some base → guard ρ base := fun base hbase =>
    transfers σ.view ρ h.acceptors (fun i => (h.processes i).leader) base (meets.meets base hbase)
  cases action with
  | acceptor a msg =>
      obtain ⟨sent, hrun⟩ := Option.ite_none_right_eq_some.mp move
      obtain ⟨s, hs, rfl⟩ := Option.map_eq_some_iff.mp hrun
      rw [← h.acceptors] at hs
      have hmove : act ρ (.acceptor a msg) = some (ρ.setAcceptor a s) := by
        simp only [act, if_pos (h.toAcceptors sent), hs, Option.map_some]
      exact ⟨_, ok.step keeps (hmeets _ rfl) hmove, h.setAcceptor a s⟩
  | receive i msg =>
      obtain ⟨-, hrun⟩ := Option.ite_none_right_eq_some.mp move
      obtain ⟨sent, hτ⟩ := Option.ite_none_right_eq_some.mp hrun
      obtain rfl := Option.some.inj hτ
      exact h.receive keeps ok (h.fromAcceptors ▸ sent) (hmeets _ rfl)
  | lsyncTimer i =>
      obtain ⟨hnone, hτ⟩ := Option.ite_none_right_eq_some.mp move
      obtain rfl := Option.some.inj hτ
      have hown := h.processes i
      refine ⟨_, ok.step keeps (hmeets _ rfl) rfl, h.setProcess ?_⟩
      refine ⟨congrArg (lsyncCheck cfg) hown.learner, hown.leader, hown.proposer,
        hown.no_proposer, ?_⟩
      rw [hnone]
      exact List.nil_prefix
  | phase1Timer i =>
      obtain ⟨-, hrun⟩ := Option.ite_none_right_eq_some.mp move
      obtain ⟨l, hl, rfl⟩ := Option.map_eq_some_iff.mp hrun
      have hmove : act ρ (.phase1Timer i) = some (ρ.setProcess i
          { ρ.processes i with leader := some (phase1CheckCb cfg l) }) := by
        simp only [act, (h.processes i).leader, hl, Option.map_some]
      exact ⟨_, ok.step keeps (hmeets _ rfl) hmove, h.setProcess ((h.processes i).lead _)⟩
  | phase2Timer i =>
      obtain ⟨-, hrun⟩ := Option.ite_none_right_eq_some.mp move
      obtain ⟨l, hl, rfl⟩ := Option.map_eq_some_iff.mp hrun
      have hmove : act ρ (.phase2Timer i) = some (ρ.setProcess i
          { ρ.processes i with leader := some l }) := by
        simp only [act, (h.processes i).leader, hl, Option.map_some]
      exact ⟨_, ok.step keeps (hmeets _ rfl) hmove, h.setProcess ((h.processes i).lead _)⟩
  | timeout i ti =>
      obtain ⟨-, hrun⟩ := Option.ite_none_right_eq_some.mp move
      exact ⟨ρ, ok, h.quiet hrun (fun _ hevent => by cases hevent)
        (fun _ hevent => by cases hevent)⟩
  | deliver i =>
      obtain ⟨p, hp, rfl⟩ := Option.map_eq_some_iff.mp move
      exact h.deliver keeps ok hp meets.buffers
  | call i value => exact h.call keeps ok move
  | fill i | arm i | returns i =>
      exact ⟨ρ, ok, h.quiet move (fun _ hevent => by cases hevent)
        (fun _ hevent => by cases hevent)⟩

theorem threadedSystem_shadow (keeps : KeepsOk D cond learned justified pick guard)
    (transfers : Transfers guard)
    (h : Reachable (threadedSystem D) (ThreadedMeets guard) σ) :
    ∃ ρ, SystemOk cond learned justified ρ ∧ SystemShadow σ ρ := by
  induction h with
  | init start =>
      obtain rfl := start
      exact ⟨systemStart D, systemStart_ok, threadedStart_shadow⟩
  | step before meets move ih =>
      obtain ⟨ρ, ok, hshadow⟩ := ih
      exact hshadow.step keeps transfers ok meets move

end Steps

/-! ### Agreement -/

theorem agrees_transfers {C : Type} (owners : Prop) (content : AcceptMsg → C) :
    Transfers (Agrees (D := D) owners content) := by
  intro σ ρ acceptors leaders action h
  have hsupporters : ∀ iid ballot m,
      ρ.supporters iid ballot m = σ.supporters iid ballot m := by
    intro iid ballot m
    simp only [SystemState.supporters, acceptors]
  refine ⟨?_, ?_, ?_⟩
  · have hvotes := h.votes
    cases action with
    | acceptor a msg => simpa only [AcceptorsMeet, acceptors] using hvotes
    | receive _ _ | lsyncTimer _ | phase1Timer _ | phase2Timer _ | timeout _ _ | submit _ _ =>
        trivial
  · have hfits := h.fits
    cases action with
    | phase1Timer i | phase2Timer i => simpa only [NoOverflow, leaders] using hfits
    | acceptor _ _ | receive _ _ | lsyncTimer _ | timeout _ _ | submit _ _ => trivial
  · have hpicks := h.unrivalled
    cases action with
    | receive i msg => simpa only [PicksMeet, leaders, Unrivalled, hsupporters] using hpicks
    | acceptor _ _ | lsyncTimer _ | phase1Timer _ | phase2Timer _ | timeout _ _ | submit _ _ =>
        trivial

/-- Two learners that deliver for the same instance deliver the same value. -/
theorem learners_agree (puts : ∀ a, (D.disk a).PutsSucceed) (distinct : D.IdsDistinct)
    (h : Reachable (threadedSystem D) (ThreadedMeets (Agrees False AcceptMsg.value)) σ)
    {i j : Fin D.processes} {d d' : DeliverCall}
    (delivered : d ∈ (σ.processes i).learner.delivered)
    (delivered' : d' ∈ (σ.processes j).learner.delivered) (iid : d.iid = d'.iid) :
    d.value = d'.value := by
  obtain ⟨ρ, hok, hshadow⟩ :=
    threadedSystem_shadow (agrees_keepsOk puts) (agrees_transfers False AcceptMsg.value) h
  rw [← (hshadow.processes i).learner] at delivered
  rw [← (hshadow.processes j).learner] at delivered'
  exact hok.delivered_agree puts distinct delivered delivered' iid

end System

/-! ### Runs -/

/-- The step itself, or the steps of a call up to its wait. -/
def Action.threaded {cfg : Config} {D : Deployment cfg} : Action D → List (ThreadedAction D)
  | .acceptor a msg => [.acceptor a msg]
  | .receive i msg => [.receive i msg]
  | .lsyncTimer i => [.lsyncTimer i]
  | .phase1Timer i => [.phase1Timer i]
  | .phase2Timer i => [.phase2Timer i]
  | .timeout i ti => [.timeout i ti]
  | .submit i value => [.call i value, .fill i, .arm i]

/-- Two clients call at once. The value of proposer 1 is decided and delivered to process 2
before the buffer there is filled, and goes out for the next instance. -/
def interleavedRun : List (ThreadedAction narrowFive) :=
  (openRound (0 : Fin 5) 20 0).flatMap Action.threaded ++
    [.call (1 : Fin 5) [7], .call (2 : Fin 5) [8], .fill (1 : Fin 5)] ++
    (toAll (acceptPacket sevenAccept) ++
      fromAll (2 : Fin 5) sevenAccept.learnPacket).flatMap Action.threaded ++
    [.deliver (2 : Fin 5), .fill (2 : Fin 5)] ++
    (fromAll (3 : Fin 5) sevenAccept.learnPacket ++
      fromAll (4 : Fin 5) sevenAccept.learnPacket).flatMap Action.threaded

theorem interleavedRun_agrees :
    Meets threadedAct (ThreadedMeets (Agrees False AcceptMsg.value)) (threadedStart narrowFive)
      interleavedRun := by
  have hchecked : Meets threadedAct
      (ThreadedMeets fun σ action =>
        AcceptorsMeet (VotesKept False narrow) σ action ∧ NoOverflow σ action)
      (threadedStart narrowFive) interleavedRun := by
    decide +kernel
  refine hchecked.mono fun σ action h => ⟨fun base hbase => ?_, h.buffers⟩
  obtain ⟨hvotes, hfits⟩ := h.meets base hbase
  exact ⟨hvotes, hfits, unrivalled_of_three (by decide) _ σ.view base⟩

theorem learners_agree_interleavedRun :
    ∃ σ, interleavedRun.foldlM threadedAct (threadedStart narrowFive) = some σ ∧
      ∃ d ∈ (σ.processes (3 : Fin 5)).learner.delivered,
        ∃ d' ∈ (σ.processes (4 : Fin 5)).learner.delivered, d.value = d'.value := by
  have hrun : ∃ σ, interleavedRun.foldlM threadedAct (threadedStart narrowFive) = some σ ∧
      (⟨[7], 1, 0, 11, 1⟩ : DeliverCall) ∈ (σ.processes (3 : Fin 5)).learner.delivered ∧
      (⟨[7], 1, 0, 11, 1⟩ : DeliverCall) ∈ (σ.processes (4 : Fin 5)).learner.delivered := by
    decide +kernel
  obtain ⟨σ, run, delivered, delivered'⟩ := hrun
  have hreach : Reachable (threadedSystem narrowFive)
      (ThreadedMeets (Agrees False AcceptMsg.value)) σ :=
    Reachable.run (fun _ _ _ move => move) (.init rfl) interleavedRun_agrees run
  exact ⟨σ, run, _, delivered, _, delivered',
    learners_agree (fun _ => quietDisk_putsSucceed) (fiveProcesses_idsDistinct _ _) hreach
      delivered delivered' rfl⟩

/-- The anyval comes a second time after a learner has delivered, and blanks the value. -/
def replayedAnyval : List (Action shippedFive) :=
  openRound (0 : Fin 5) 20 50 ++ [.submit (1 : Fin 5) [7], .submit (2 : Fin 5) [8]] ++
    toAll (acceptPacket sevenAccept) ++ fromAll (3 : Fin 5) sevenAccept.learnPacket ++
    toAll (anyvalPacket 20 (idsFromTo 0 50)) ++ toAll (acceptPacket eightAccept) ++
    fromAll (4 : Fin 5) eightAccept.learnPacket

theorem replayedAnyval_disagrees :
    shippedFive.IdsDistinct ∧ ∃ σ, Reachable (threadedSystem shippedFive) anyStep σ ∧
      ∃ i j d d', d ∈ (σ.processes i).learner.delivered ∧
        d' ∈ (σ.processes j).learner.delivered ∧ d.iid = d'.iid ∧ d.value ≠ d'.value := by
  have hrun : ∃ σ, replayedAnyval.foldlM act (systemStart shippedFive) = some σ ∧
      (⟨[7], 1, 0, 11, 1⟩ : DeliverCall) ∈ (σ.processes (3 : Fin 5)).learner.delivered ∧
      (⟨[8], 1, 0, 12, 2⟩ : DeliverCall) ∈ (σ.processes (4 : Fin 5)).learner.delivered := by
    decide +kernel
  obtain ⟨σ, run, delivered, delivered'⟩ := hrun
  have hreach : Reachable (system shippedFive) anyStep σ :=
    Reachable.run (fun _ _ _ move => move) (.init rfl)
      (Meets.of_forall (fun _ _ => trivial) _ _) run
  obtain ⟨τ, hτ, rfl⟩ := system_serial anyStep hreach
  exact ⟨fiveProcesses_idsDistinct _ _, τ, hτ.mono fun _ _ _ => trivial, (3 : Fin 5),
    (4 : Fin 5), _, _, delivered, delivered', rfl, by decide⟩

/-- What proposer 2 sends for instance 1. -/
def nineAccept : AcceptMsg := ⟨1, 12, 1, 2, [9]⟩

/-- What proposer 1 sends for instance 2 before it fills the buffer for its second call. -/
def staleAccept : AcceptMsg := ⟨2, 11, 1, 1, [7]⟩

/-- What it sends afterwards, at the same ballot. -/
def filledAccept : AcceptMsg := ⟨2, 11, 1, 1, [8]⟩

/-- A process learns that all acceptors accepted, and delivers. -/
def hears {cfg : Config} {D : Deployment cfg} (i : Fin D.processes) (m : AcceptMsg) :
    List (ThreadedAction D) :=
  (fromAll i m.learnPacket).flatMap Action.threaded ++ [.deliver i]

/-- The value of proposer 2 is delivered to process 1 between the locked block of its second
call and the filling. One acceptor takes the value of the first call, the others that of the
second, and the learners count them as one. -/
def staleRun : List (ThreadedAction shippedFive) :=
  (openRound (0 : Fin 5) 20 50 ++ [Action.submit (1 : Fin 5) [7]] ++
      toAll (acceptPacket sevenAccept)).flatMap Action.threaded ++
    hears (1 : Fin 5) sevenAccept ++ [.returns (1 : Fin 5)] ++ hears (2 : Fin 5) sevenAccept ++
    ([Action.submit (2 : Fin 5) [9]] ++ toAll (acceptPacket nineAccept)).flatMap Action.threaded ++
    [.call (1 : Fin 5) [8]] ++ hears (1 : Fin 5) nineAccept ++ [.fill (1 : Fin 5)] ++
    [.acceptor (0 : Fin 3) (acceptPacket staleAccept),
      .acceptor (1 : Fin 3) (acceptPacket filledAccept),
      .acceptor (2 : Fin 3) (acceptPacket filledAccept)] ++
    hears (3 : Fin 5) sevenAccept ++ hears (3 : Fin 5) nineAccept ++
    hears (4 : Fin 5) sevenAccept ++ hears (4 : Fin 5) nineAccept ++
    [.receive (3 : Fin 5) (filledAccept.learnPacket 1),
      .receive (3 : Fin 5) (filledAccept.learnPacket 2),
      .receive (3 : Fin 5) (staleAccept.learnPacket 0),
      .receive (4 : Fin 5) (staleAccept.learnPacket 0),
      .receive (4 : Fin 5) (filledAccept.learnPacket 1),
      .receive (4 : Fin 5) (filledAccept.learnPacket 2)]

/-- What is asked of acceptors and leader alone does not make the learners agree. -/
theorem staleRun_disagrees :
    Meets threadedAct
        (fun σ action => ∀ base, action.action? = some base →
          AcceptorsMeet (VotesKept False .shipped) σ.view base ∧ NoOverflow σ.view base)
        (threadedStart shippedFive) staleRun ∧
      ∃ σ, staleRun.foldlM threadedAct (threadedStart shippedFive) = some σ ∧
        (⟨[7], 1, 2, 11, 1⟩ : DeliverCall) ∈ (σ.processes (3 : Fin 5)).learner.delivered ∧
        (⟨[8], 1, 2, 11, 1⟩ : DeliverCall) ∈ (σ.processes (4 : Fin 5)).learner.delivered := by
  decide +kernel

end LibFastPaxos
