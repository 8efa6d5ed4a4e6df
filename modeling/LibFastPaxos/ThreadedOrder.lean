import LibFastPaxos.ThreadedAgreement

/-!
Total order broadcast of the system with two threads. What a process has delivered leaves
out the deliver calls that its event thread has still to make.
-/

namespace LibFastPaxos

open Transition Broadcast History

/-- The deliver calls that were made, newest first. -/
def ThreadedProcess.made (p : ThreadedProcess) : List DeliverCall :=
  p.learner.delivered.drop p.pending.length

/-- The values that the process has delivered, oldest first. -/
def ThreadedProcess.values (p : ThreadedProcess) : List Bytes :=
  p.made.reverse.map DeliverCall.value

/-! ### What a proposer has submitted -/

section Thread

variable {s t : ThreadState}

theorem udpSend_submits (value : Bytes) :
    ProposerEffect.submit value ∈ s.udpSend.trace ↔ ProposerEffect.submit value ∈ s.trace := by
  simp only [ThreadState.udpSend]
  split
  · exact Iff.rfl
  · simp [ProposerState.sendBuffer, ProposerState.emit]

theorem threadStep_submits {event : ThreadEvent} (move : threadStep s event = some t)
    (value : Bytes) :
    ProposerEffect.submit value ∈ t.trace ↔
      ProposerEffect.submit value ∈ s.trace ∨ event = .call value := by
  cases event with
  | call v =>
      obtain ⟨-, ht⟩ := Option.ite_none_right_eq_some.mp move
      obtain rfl := Option.some.inj ht
      simp only [threadCall]
      split <;> simp [eq_comm, or_comm]
  | fill =>
      simp only [threadStep] at move
      split at move
      · obtain rfl := Option.some.inj move
        simp [threadFill, udpSend_submits]
      · cases move
  | arm =>
      simp only [threadStep] at move
      split at move
      · obtain rfl := Option.some.inj move
        simp [threadArm, ThreadState.setProposerCheckTimeout, ProposerState.setProposerCheckTimeout]
      · cases move
  | returns =>
      simp only [threadStep] at move
      split at move
      · obtain ⟨-, ht⟩ := Option.ite_none_right_eq_some.mp move
        obtain rfl := Option.some.inj ht
        simp
      · cases move
  | timeout ti =>
      obtain ⟨-, ht⟩ := Option.ite_none_right_eq_some.mp move
      obtain rfl := Option.some.inj ht
      simp only [threadCheckTimeout]
      split
      · simp [ThreadState.setProposerCheckTimeout, ProposerState.setProposerCheckTimeout,
          udpSend_submits]
      · simp
  | deliver call =>
      cases threadDeliverCallback_delivery move with
      | idle waiting => simp
      | woken waiting own => simp [submit_not_told]
      | resent waiting other =>
          simp [ThreadState.setProposerCheckTimeout, ProposerState.setProposerCheckTimeout,
            udpSend_submits, ThreadState.moveOn, submit_not_told]

end Thread

/-! ### One step of the two threads -/

section System

variable {cfg : Config} {D : Deployment cfg} {σ τ : ThreadedState D} {action : ThreadedAction D}
  {i : Fin D.processes} {p q : ThreadedProcess}

/-- What a step does to a process, as far as clients see it. -/
structure ThreadedMoves (action : ThreadedAction D) (i : Fin D.processes) (p q : ThreadedProcess) :
    Prop where
  learner : ∃ events : List LearnerEvent, q.learner = events.foldl (learnerEvent cfg) p.learner
  submitted : ∀ value, q.view.Submitted value ↔ p.view.Submitted value ∨ action = .call i value
  calls : q.learner.delivered = p.learner.delivered ∧ q.pending.length ≤ p.pending.length ∨
    p.pending = [] ∧ q.pending = newDeliveries p.learner q.learner

theorem ThreadedMoves.same (quiet : ∀ value, action ≠ .call i value) :
    ThreadedMoves action i p p :=
  ⟨⟨[], rfl⟩, fun value => (or_iff_left (quiet value)).symm, .inl ⟨rfl, Nat.le_refl _⟩⟩

/-- A process whose leader takes a step. -/
theorem ThreadedMoves.lead (quiet : ∀ value, action ≠ .call i value) (l : Option LeaderState) :
    ThreadedMoves action i p { p with leader := l } :=
  ⟨⟨[], rfl⟩, fun value => (or_iff_left (quiet value)).symm, .inl ⟨rfl, Nat.le_refl _⟩⟩

/-- A process whose proposer takes a step. -/
theorem ThreadedMoves.propose {s t : ThreadState} {event : ThreadEvent}
    (proposer : p.proposer = some s) (move : threadStep s event = some t)
    (label : ∀ value, event = .call value ↔ action = .call i value)
    (after : q.proposer = some t) (learner : q.learner = p.learner)
    (pending : q.pending.length ≤ p.pending.length) : ThreadedMoves action i p q := by
  refine ⟨⟨[], learner⟩, fun value => ?_, .inl ⟨by rw [learner], pending⟩⟩
  simp only [Process.Submitted, ThreadedProcess.view, proposer, after, Option.map_some,
    Option.some.injEq, exists_eq_left']
  rw [threadStep_submits move value, label value]

theorem threadedMoves_set {j : Fin D.processes} (own : ThreadedMoves action i (σ.processes i) p)
    (quiet : ∀ value, i ≠ j → action ≠ .call j value) :
    ThreadedMoves action j (σ.processes j) ((σ.setProcess i p).processes j) := by
  by_cases hj : j = i
  · subst hj
    rw [setProcess_same]
    exact own
  · have hsame : (σ.setProcess i p).processes j = σ.processes j := Function.update_of_ne hj _ _
    rw [hsame]
    exact .same fun value => quiet value (Ne.symm hj)

theorem thread_moves {event : ThreadEvent} {j : Fin D.processes}
    (label : ∀ j value, event = .call value ∧ i = j ↔ action = .call j value)
    (move : σ.thread i event = some τ) :
    ThreadedMoves action j (σ.processes j) (τ.processes j) := by
  obtain ⟨s, hs, hrun⟩ := Option.bind_eq_some_iff.mp move
  obtain ⟨t, ht, rfl⟩ := Option.map_eq_some_iff.mp hrun
  refine threadedMoves_set (.propose hs ht ?_ rfl rfl (Nat.le_refl _)) ?_
  · intro value
    rw [← label i value, and_iff_left rfl]
  · intro value hne heq
    exact hne ((label j value).mpr heq).2

theorem ThreadedMoves.receive {msg : PaxosMsg} (idle : p.pending = []) :
    ThreadedMoves (.receive i msg : ThreadedAction D) i p (p.receive cfg msg) := by
  unfold ThreadedProcess.receive
  split
  · next lmsg _ =>
      exact ⟨⟨[.learn lmsg], rfl⟩, fun value => (or_iff_left nofun).symm, .inr ⟨idle, rfl⟩⟩
  · exact .lead (fun value h => by cases h) _
  · exact .same nofun

theorem ThreadedMoves.deliver (run : p.deliver = some q) :
    ThreadedMoves (.deliver i : ThreadedAction D) i p q := by
  unfold ThreadedProcess.deliver at run
  split at run
  · cases run
  · next call rest hpending =>
      have hle : rest.length ≤ p.pending.length := by
        rw [hpending]
        exact Nat.le_succ _
      split at run
      · obtain rfl := Option.some.inj run
        exact ⟨⟨[], rfl⟩, fun value => (or_iff_left nofun).symm, .inl ⟨rfl, hle⟩⟩
      · next s hs =>
          obtain ⟨t, ht, rfl⟩ := Option.map_eq_some_iff.mp run
          have hmove : threadStep s (.deliver call) = some t := ht
          exact .propose hs hmove (fun value => ⟨nofun, nofun⟩) rfl rfl hle

theorem threadedAct_moves (move : threadedAct σ action = some τ) (j : Fin D.processes) :
    ThreadedMoves action j (σ.processes j) (τ.processes j) := by
  cases action with
  | acceptor a msg =>
      obtain ⟨-, hrun⟩ := Option.ite_none_right_eq_some.mp move
      obtain ⟨s, -, rfl⟩ := Option.map_eq_some_iff.mp hrun
      exact .same nofun
  | receive i msg =>
      obtain ⟨idle, hrun⟩ := Option.ite_none_right_eq_some.mp move
      obtain ⟨-, hτ⟩ := Option.ite_none_right_eq_some.mp hrun
      obtain rfl := Option.some.inj hτ
      exact threadedMoves_set (.receive idle) nofun
  | lsyncTimer i =>
      obtain ⟨-, hτ⟩ := Option.ite_none_right_eq_some.mp move
      obtain rfl := Option.some.inj hτ
      obtain ⟨packets, hpackets⟩ := lsyncCheck_sends cfg (σ.processes i).learner
      refine threadedMoves_set ⟨⟨[.lsyncTimer], rfl⟩, fun value => (or_iff_left nofun).symm,
        .inl ⟨?_, Nat.le_refl _⟩⟩ nofun
      rw [hpackets]
  | phase1Timer i | phase2Timer i =>
      obtain ⟨-, hrun⟩ := Option.ite_none_right_eq_some.mp move
      obtain ⟨l, -, rfl⟩ := Option.map_eq_some_iff.mp hrun
      exact threadedMoves_set (.lead (fun value h => by cases h) _) nofun
  | timeout i ti =>
      obtain ⟨-, hrun⟩ := Option.ite_none_right_eq_some.mp move
      exact thread_moves (fun j value => ⟨fun h => (by cases h.1), fun h => (by cases h)⟩) hrun
  | deliver i =>
      obtain ⟨p, hp, rfl⟩ := Option.map_eq_some_iff.mp move
      exact threadedMoves_set (.deliver hp) nofun
  | call i value =>
      refine thread_moves (fun j v => ?_) move
      constructor
      · rintro ⟨hcall, rfl⟩
        cases hcall
        rfl
      · intro h
        cases h
        exact ⟨rfl, rfl⟩
  | fill i | arm i | returns i =>
      exact thread_moves (fun j value => ⟨fun h => (by cases h.1), fun h => (by cases h)⟩) move

/-! ### The sequence -/

variable {guard : ThreadedState D → ThreadedAction D → Prop}

/-- Every learner is in a run of its own here too. -/
theorem threadedLearners_run (h : Reachable (threadedSystem D) guard σ) (i : Fin D.processes) :
    ∃ events, (σ.processes i).learner = learnerRun cfg events := by
  induction h with
  | init start =>
      obtain rfl := start
      refine ⟨[], ?_⟩
      simp only [threadedStart, Role.threadedStart]
      cases D.role i <;> rfl
  | step before ok move ih =>
      obtain ⟨events, hevents⟩ := ih
      obtain ⟨more, hmore⟩ := (threadedAct_moves move i).learner
      refine ⟨events ++ more, ?_⟩
      rw [hmore, hevents, learnerRun, learnerRun, List.foldl_append]

/-- A call that was made stays the call of its place. -/
theorem made_grow (h : Reachable (threadedSystem D) guard σ) (move : threadedAct σ action = some τ)
    (i : Fin D.processes) : (σ.processes i).made <:+ (τ.processes i).made := by
  have hmoves := threadedAct_moves move i
  simp only [ThreadedProcess.made]
  cases hmoves.calls with
  | inl quiet =>
      rw [quiet.1]
      exact List.drop_suffix_drop_left _ quiet.2
  | inr learned =>
      -- all new calls are pending
      obtain ⟨events, hevents⟩ := threadedLearners_run h i
      obtain ⟨more, hmore⟩ := hmoves.learner
      have hrun : (τ.processes i).learner = learnerRun cfg (events ++ more) := by
        rw [hmore, hevents, learnerRun, learnerRun, List.foldl_append]
      obtain ⟨new, hnew⟩ := learnerRun_suffix cfg events more
      rw [← hevents, ← hrun] at hnew
      simp [learned.1, learned.2, newDeliveries, ← hnew]

theorem threadedValues_grow (h : Reachable (threadedSystem D) guard σ)
    (move : threadedAct σ action = some τ) (i : Fin D.processes) :
    (σ.processes i).values <+: (τ.processes i).values :=
  (List.reverse_prefix.mpr (made_grow h move i)).map DeliverCall.value

theorem threadedAct_submitted (move : threadedAct σ action = some τ) :
    τ.view.submitted = σ.view.submitted ∨
      ∃ value, τ.view.submitted = insert value σ.view.submitted := by
  refine submitted_cases (fun i j x y heq => ?_) fun i => (threadedAct_moves move i).submitted
  cases heq
  rfl

theorem SystemShadow.submitted {ρ : SystemState D} (h : SystemShadow σ ρ) :
    σ.view.submitted = ρ.submitted :=
  Set.ext fun value => exists_congr fun i => (h.processes i).submitted value

theorem threaded_coherent (puts : ∀ a, (D.disk a).PutsSucceed) (distinct : D.IdsDistinct)
    (h : Reachable (threadedSystem D) (ThreadedMeets (Agrees False AcceptMsg.value)) σ) :
    Coherent σ.view.submitted fun i => (σ.processes i).values := by
  obtain ⟨ρ, hok, hshadow⟩ :=
    threadedSystem_shadow (agrees_keepsOk puts) (agrees_transfers False AcceptMsg.value) h
  have hcoherent := hok.delivered_coherent puts distinct fun i => by
    rw [(hshadow.processes i).learner]
    exact threadedLearners_run h i
  rw [hshadow.submitted]
  refine hcoherent.of_prefix fun i => ?_
  simp only [ThreadedProcess.values, Process.values, (hshadow.processes i).learner]
  exact (List.reverse_prefix.mpr (List.drop_suffix _ _)).map DeliverCall.value

/-- The broadcast that the processes have seen so far. -/
def ThreadedState.broadcast (σ : ThreadedState D) : Broadcast.State (Fin D.processes) Bytes :=
  seenBy (List.finRange D.processes) σ.view.submitted fun i => (σ.processes i).values

theorem threadedStart_values (i : Fin D.processes) :
    ((threadedStart D).processes i).values = [] := by
  simp only [threadedStart, Role.threadedStart, ThreadedProcess.values, ThreadedProcess.made]
  cases D.role i <;> rfl

/-- As long as the runs agree on values and keep the buffers, the system is a total order
broadcast, whatever the two threads of a process do in between: its steps submit values, put
them into the sequence and deliver along it. -/
theorem system_broadcasts (puts : ∀ a, (D.disk a).PutsSucceed) (distinct : D.IdsDistinct) :
    RefinementMap (threadedSystem D) (ThreadedMeets (Agrees False AcceptMsg.value))
        (Broadcast.broadcast (Fin D.processes) Bytes) anyStep ThreadedState.broadcast ∧
      ∀ σ, Reachable (threadedSystem D) (ThreadedMeets (Agrees False AcceptMsg.value)) σ →
        ∀ i, σ.broadcast.output i = (σ.processes i).values := by
  refine ⟨⟨?_, ?_⟩, fun σ h i => (threaded_coherent puts distinct h).output List.mem_finRange i⟩
  · intro σ start
    obtain rfl := start
    rw [ThreadedState.broadcast, threadedStart_view, start_submitted]
    exact init_seenBy threadedStart_values
  · intro σ action τ h ok move
    exact moves_submit_seenBy List.mem_finRange (threaded_coherent puts distinct (.step h ok move))
      (threadedAct_submitted move) (threadedValues_grow h move)

end System

/-- Process 2 has delivered the value, and learner 3 is about to. -/
theorem system_broadcasts_interleavedRun :
    ∃ σ, interleavedRun.foldlM threadedAct (threadedStart narrowFive) = some σ ∧
      Reachable (Broadcast.broadcast (Fin 5) Bytes) anyStep σ.broadcast ∧
      σ.broadcast.output (2 : Fin 5) = [[7]] ∧ σ.broadcast.output (3 : Fin 5) = [] := by
  have hrun : ∃ σ, interleavedRun.foldlM threadedAct (threadedStart narrowFive) = some σ ∧
      (σ.processes (2 : Fin 5)).values = [[7]] ∧ (σ.processes (3 : Fin 5)).values = [] := by
    decide +kernel
  obtain ⟨σ, run, delivered, none⟩ := hrun
  have hreach : Reachable (threadedSystem narrowFive)
      (ThreadedMeets (Agrees False AcceptMsg.value)) σ :=
    Reachable.run (fun _ _ _ move => move) (.init rfl) interleavedRun_agrees run
  obtain ⟨hrefines, houtput⟩ := system_broadcasts (fun _ => quietDisk_putsSucceed)
    (fiveProcesses_idsDistinct narrow (by decide))
  exact ⟨σ, run, hrefines.reachable hreach, (houtput σ hreach (2 : Fin 5)).trans delivered,
    (houtput σ hreach (3 : Fin 5)).trans none⟩

end LibFastPaxos
