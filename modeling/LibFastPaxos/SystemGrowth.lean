import LibFastPaxos.System
import LibFastPaxos.AcceptorSends
import LibFastPaxos.LeaderBallots
import LibFastPaxos.LearnerRuns
import LibFastPaxos.ProposerRetries

/-!
What only grows in a run of the system. The debug logs of the acceptors, the
datagrams sent to them, the deliver calls and the traces of the proposers lose
nothing, and an acceptor applies only accepts that were sent.
-/

namespace LibFastPaxos

open Transition

/-! ### The leader -/

section Leader

variable (cfg : Config) (s : LeaderState)

theorem addPrepareToBuffer_sent {t : LeaderState} (same : t.sent = s.sent) (iid ballot : Int) :
    s.sent ⊆ (addPrepareToBuffer t iid ballot).sent := by
  unfold addPrepareToBuffer
  rw [← same]
  dsimp only
  split
  · exact List.subset_cons_self _ _
  · exact List.Subset.refl _

theorem openInstance_sent (i : Int) : s.sent ⊆ (openInstance cfg s i).sent := by
  simp only [openInstance]
  split
  · apply addPrepareToBuffer_sent s
    rfl
  · exact List.Subset.refl _

theorem retryInstance_sent (i : Int) : s.sent ⊆ (retryInstance cfg s i).sent := by
  simp only [retryInstance]
  split
  · apply addPrepareToBuffer_sent s
    rfl
  · exact List.Subset.refl _

variable {cfg} in
/-- A loop loses nothing when its body does not. -/
theorem foldl_sent {body : LeaderState → Int → LeaderState}
    (grows : ∀ s i, s.sent ⊆ (body s i).sent) (ids : List Int) (s : LeaderState) :
    s.sent ⊆ (ids.foldl body s).sent := by
  induction ids generalizing s with
  | nil => exact List.Subset.refl _
  | cons i ids ih => exact List.Subset.trans (grows s i) (ih (body s i))

theorem executePhase1_sent : s.sent ⊆ (executePhase1 cfg s).sent := by
  have hloop := foldl_sent (openInstance_sent cfg) (idsFromTo (s.p1info.highestReady + 1)
    (s.p1info.highestReady + 1 + cfg.proposerPreexecWinSize)) s
  unfold executePhase1
  dsimp only
  split <;> split <;> split <;> first
    | exact hloop
    | exact List.Subset.trans hloop (List.subset_cons_self _ _)

theorem phase1CheckCb_sent : s.sent ⊆ (phase1CheckCb cfg s).sent := by
  have hloop := foldl_sent (retryInstance_sent cfg)
    (idsFromTo s.p1info.firstToCheck s.p1info.lastToCheck) s.initPrepares
  have hopen := List.Subset.trans hloop (executePhase1_sent cfg _)
  unfold phase1CheckCb
  dsimp only
  split
  · split
    · exact List.Subset.trans hopen (List.subset_cons_self _ _)
    · exact hopen
  · split
    · exact List.Subset.trans hloop (List.subset_cons_self _ _)
    · exact hloop

variable {cfg s} in
theorem phase2CheckCb_sent {t : LeaderState} (run : phase2CheckCb cfg s = some t) :
    s.sent ⊆ t.sent := by
  unfold phase2CheckCb at run
  split at run
  · dsimp only at run
    split at run
    · cases run
    · obtain rfl := Option.some.inj run
      apply List.subset_cons_of_subset
      apply addPrepareToBuffer_sent s
      rfl
  · obtain rfl := Option.some.inj run
    exact List.Subset.refl _

theorem leaderHandlePromiseMsg_sent (batch : PromiseBatchMsg) :
    s.sent ⊆ (leaderHandlePromiseMsg cfg s batch).sent := by
  rw [leaderHandlePromiseMsg_eq]
  obtain ⟨new, hnew, -⟩ :=
    executePhase2_sent cfg (storePromises cfg s batch) (firstIid batch) (lastIid batch)
  rw [hnew, storePromises_sent]
  exact List.subset_append_right _ _

end Leader

/-! ### The proposer -/

section Proposer

variable {s t : ProposerState}

theorem proposerStep_trace {event : ProposerEvent} (move : proposerStep s event = some t) :
    s.trace ⊆ t.trace := by
  cases event with
  | submit value =>
      obtain ⟨-, ht⟩ := Option.ite_none_right_eq_some.mp move
      obtain rfl := Option.some.inj ht
      simp only [proposerSubmitValue]
      split
      · exact List.subset_cons_of_subset _ (List.subset_cons_self _ _)
      · exact List.subset_cons_of_subset _ (List.subset_cons_self _ _)
  | deliver call =>
      obtain ⟨-, outcome⟩ := proposerDeliverCallback_outcome move
      cases outcome with
      | idle waiting => exact List.subset_cons_self _ _
      | woken waiting own | resent waiting other =>
          exact List.subset_cons_of_subset _ fun e he => mem_told he
  | timeout ti =>
      obtain ⟨-, ht⟩ := Option.ite_none_right_eq_some.mp move
      obtain rfl := Option.some.inj ht
      simp only [proposerCheckTimeout]
      split
      · exact List.subset_cons_self _ _
      · exact List.Subset.refl _

theorem proposer_sent_subset (trace : s.trace ⊆ t.trace) : s.sent ⊆ t.sent :=
  List.filterMap_subset _ trace

end Proposer

/-! ### A process -/

structure Process.Grows (p q : Process) : Prop where
  sent : p.sent ⊆ q.sent
  delivered : p.learner.delivered ⊆ q.learner.delivered
  proposer : ∀ s, p.proposer = some s → ∃ t, q.proposer = some t ∧ s.trace ⊆ t.trace

section Process

variable {p q r : Process}

theorem Process.Grows.refl (p : Process) : p.Grows p :=
  ⟨List.Subset.refl _, List.Subset.refl _, fun s hs => ⟨s, hs, List.Subset.refl _⟩⟩

theorem Process.Grows.trans (h : p.Grows q) (h' : q.Grows r) : p.Grows r := by
  refine ⟨List.Subset.trans h.sent h'.sent, List.Subset.trans h.delivered h'.delivered, ?_⟩
  intro s hs
  obtain ⟨t, ht, hst⟩ := h.proposer s hs
  obtain ⟨u, hu, htu⟩ := h'.proposer t ht
  exact ⟨u, hu, List.Subset.trans hst htu⟩

theorem mem_sent {packet : PaxosMsg} :
    packet ∈ p.sent ↔ packet ∈ p.learner.sent ∨
      (∃ s, p.proposer = some s ∧ packet ∈ s.sent) ∨
      ∃ l, p.leader = some l ∧ packet ∈ l.sent := by
  simp only [Process.sent]
  rw [List.mem_append, List.mem_append]
  cases p.proposer <;> cases p.leader <;> simp

/-- Each part of the process loses nothing. -/
theorem Process.Grows.of_parts (learner : p.learner.sent ⊆ q.learner.sent)
    (delivered : p.learner.delivered ⊆ q.learner.delivered)
    (proposer : ∀ s, p.proposer = some s → ∃ t, q.proposer = some t ∧ s.trace ⊆ t.trace)
    (leader : ∀ l, p.leader = some l → ∃ l', q.leader = some l' ∧ l.sent ⊆ l'.sent) :
    p.Grows q := by
  refine ⟨?_, delivered, proposer⟩
  intro packet hp
  cases mem_sent.mp hp with
  | inl h => exact mem_sent.mpr (.inl (learner h))
  | inr h =>
      cases h with
      | inl h =>
          obtain ⟨s, hs, hmem⟩ := h
          obtain ⟨t, ht, hst⟩ := proposer s hs
          exact mem_sent.mpr (.inr (.inl ⟨t, ht, proposer_sent_subset hst hmem⟩))
      | inr h =>
          obtain ⟨l, hl, hmem⟩ := h
          obtain ⟨l', hl', hsub⟩ := leader l hl
          exact mem_sent.mpr (.inr (.inr ⟨l', hl', hsub hmem⟩))

end Process

/-! ### The acceptor -/

section Acceptor

variable {cfg : Config} {env : DiskEnv} {s t : AcceptorState}

theorem OpOutcome.log_suffix {op : AcceptorOp} (outcome : OpOutcome cfg env s op t) :
    s.log <:+ t.log ∧ ∀ m, LogLine.acceptApplied m ∈ t.log →
      LogLine.acceptApplied m ∈ s.log ∨ op = .accept m := by
  cases outcome with
  | promised granted stored log | opened applied stored log =>
      rw [log]
      exact ⟨List.suffix_cons _ _, fun m hm => .inl (by simpa using hm)⟩
  | accepted applied stored log =>
      rw [log]
      refine ⟨List.suffix_cons _ _, fun m hm => ?_⟩
      cases List.mem_cons.mp hm with
      | inl heq =>
          cases heq
          exact .inr rfl
      | inr hold => exact .inl hold
  | answered read value stored log | ignored stored log =>
      rw [log]
      exact ⟨List.suffix_refl _, fun m hm => .inl hm⟩

/-- What handling a message adds to the debug log. -/
structure MessageLogged (s : AcceptorState) (data : PaxosData) (t : AcceptorState) : Prop where
  acceptorId : t.acceptorId = s.acceptorId
  log : s.log <:+ t.log
  accepts : ∀ m, LogLine.acceptApplied m ∈ t.log →
    LogLine.acceptApplied m ∈ s.log ∨ data = .accept m

theorem accept_mem_ops {data : PaxosData} {m : AcceptMsg}
    (h : AcceptorOp.accept m ∈ data.ops) : data = .accept m := by
  cases data with
  | accept amsg =>
      cases List.mem_singleton.mp h
      rfl
  | prepare _ | lsync _ | anyval _ =>
      obtain ⟨_, _, heq⟩ := List.mem_map.mp h
      cases heq
  | promise _ | learn _ => cases h

theorem handleMessage_logged (puts : env.PutsSucceed) (coh : s.Coherent cfg) {msg : PaxosMsg}
    (wf : msg.data.WellFormed) (run : handleMessage cfg env s msg = some t) :
    MessageLogged s msg.data t := by
  suffices t.Coherent cfg ∧ MessageLogged s msg.data t from this.2
  have hmeets : MessageMeets cfg env (fun _ _ => True) s msg :=
    Meets.of_forall (fun _ _ => trivial) _ _
  refine message_invariant (P := fun op => op.WellFormed ∧ op ∈ msg.data.ops)
    (fun t => t.Coherent cfg ∧ MessageLogged s msg.data t) ?_ ?_ ?_ ?_ ?_ hmeets run
  · intro u ⟨hcoh, hu⟩
    exact ⟨hcoh.congr (by simp) (by simp), by simpa using hu.acceptorId, by simpa using hu.log,
      by simpa using hu.accepts⟩
  · intro u op v ⟨hwf, hop⟩ ⟨hcoh, hu⟩ _ hv
    obtain ⟨hcoh', hid, outcome⟩ := handleOp_outcome hcoh puts hwf hv
    obtain ⟨hsuffix, haccepts⟩ := outcome.log_suffix
    refine ⟨hcoh', hid.trans hu.acceptorId, hu.log.trans hsuffix, ?_⟩
    intro m hm
    cases haccepts m hm with
    | inl hold => exact hu.accepts m hold
    | inr hnew =>
        subst hnew
        exact .inr (accept_mem_ops hop)
  · intro u ⟨hcoh, hu⟩ _
    exact ⟨hcoh.congr (by simp) (by simp), by simpa using hu.acceptorId, by simpa using hu.log,
      by simpa using hu.accepts⟩
  · intro op hop
    exact ⟨PaxosData.ops_wellFormed wf op hop, hop⟩
  · exact ⟨coh, rfl, List.suffix_refl _, fun m hm => .inl hm⟩

end Acceptor

/-! ### The system -/

section System

variable {cfg : Config} {D : Deployment cfg}

structure SystemState.Grows (σ τ : SystemState D) : Prop where
  log : ∀ a, (σ.acceptors a).log <:+ (τ.acceptors a).log
  processes : ∀ i, (σ.processes i).Grows (τ.processes i)

variable {σ τ : SystemState D}

theorem mem_toAcceptors {packet : PaxosMsg} :
    packet ∈ σ.toAcceptors ↔ ∃ i, packet ∈ (σ.processes i).sent := by
  simp [SystemState.toAcceptors]

theorem mem_fromAcceptors {packet : PaxosMsg} :
    packet ∈ σ.fromAcceptors ↔ ∃ a, packet ∈ (σ.acceptors a).sent := by
  simp [SystemState.fromAcceptors]

theorem SystemState.Grows.toAcceptors (h : σ.Grows τ) : σ.toAcceptors ⊆ τ.toAcceptors := by
  intro packet hp
  obtain ⟨i, hi⟩ := mem_toAcceptors.mp hp
  exact mem_toAcceptors.mpr ⟨i, (h.processes i).sent hi⟩

theorem SystemState.Grows.setAcceptor {a : Fin cfg.nOfAcceptors} {s : AcceptorState}
    (log : (σ.acceptors a).log <:+ s.log) : σ.Grows (σ.setAcceptor a s) := by
  refine ⟨?_, fun i => .refl _⟩
  intro b
  by_cases hb : b = a
  · subst hb
    simpa [SystemState.setAcceptor] using log
  · simp [SystemState.setAcceptor, hb]

theorem SystemState.Grows.setProcess {i : Fin D.processes} {p : Process}
    (grows : (σ.processes i).Grows p) : σ.Grows (σ.setProcess i p) := by
  refine ⟨fun a => List.suffix_refl _, ?_⟩
  intro j
  by_cases hj : j = i
  · subst hj
    simpa [SystemState.setProcess] using grows
  · have hsame : (σ.setProcess i p).processes j = σ.processes j := Function.update_of_ne hj _ _
    rw [hsame]
    exact .refl _

end System
end LibFastPaxos
