import LibFastPaxos.Agreement
import LibFastPaxos.LearnerDelivery
import LibFastPaxos.Lib.Broadcast

/-!
What the system is for. Seen through what clients submit and what the learners hand to
their deliver functions, a run that agrees on its values is a run of a total order
broadcast: one sequence of submitted values, of which every learner delivers a prefix.
-/

namespace LibFastPaxos

open Transition Broadcast

/-! ### What a process has submitted and delivered -/

def Process.Submitted (p : Process) (value : Bytes) : Prop :=
  ∃ s, p.proposer = some s ∧ ProposerEffect.submit value ∈ s.trace

/-- The values that the process has delivered, oldest first. -/
def Process.values (p : Process) : List Bytes :=
  p.learner.delivered.reverse.map DeliverCall.value

section Process

variable {cfg : Config} {p q : Process}

theorem submit_not_told (s : ProposerState) (call : DeliverCall) (value : Bytes) :
    ProposerEffect.submit value ∉ s.told call := by
  simp only [ProposerState.told]
  split <;> simp

theorem proposerStep_submits {s t : ProposerState} {event : ProposerEvent}
    (move : proposerStep s event = some t) (value : Bytes) :
    ProposerEffect.submit value ∈ t.trace ↔
      ProposerEffect.submit value ∈ s.trace ∨ event = .submit value := by
  cases event with
  | submit v =>
      obtain ⟨-, ht⟩ := Option.ite_none_right_eq_some.mp move
      obtain rfl := Option.some.inj ht
      simp only [proposerSubmitValue]
      split <;> simp [ProposerState.emit, ProposerState.sendBuffer,
        ProposerState.setProposerCheckTimeout, eq_comm, or_comm]
  | deliver call =>
      obtain ⟨-, outcome⟩ := proposerDeliverCallback_outcome move
      cases outcome with
      | idle waiting => simp
      | woken waiting own | resent waiting other => simp [submit_not_told]
  | timeout ti =>
      obtain ⟨-, ht⟩ := Option.ite_none_right_eq_some.mp move
      obtain rfl := Option.some.inj ht
      simp only [proposerCheckTimeout]
      split <;> simp [ProposerState.emit, ProposerState.sendBuffer,
        ProposerState.setProposerCheckTimeout]

theorem deliver_keeps {call : DeliverCall} (run : p.deliver call = some q) :
    q.learner = p.learner ∧ ∀ value, q.Submitted value ↔ p.Submitted value := by
  unfold Process.deliver at run
  cases hs : p.proposer with
  | none =>
      rw [hs] at run
      obtain rfl := Option.some.inj run
      exact ⟨rfl, fun _ => Iff.rfl⟩
  | some s =>
      rw [hs] at run
      obtain ⟨t, ht, rfl⟩ := Option.map_eq_some_iff.mp run
      have move : proposerStep s (.deliver call) = some t := ht
      refine ⟨rfl, fun value => ?_⟩
      have := proposerStep_submits move value
      simp only [Process.Submitted, hs, Option.some.injEq, exists_eq_left']
      rw [this]
      simp

theorem delivers_keeps (calls : List DeliverCall)
    (run : calls.foldlM Process.deliver p = some q) :
    q.learner = p.learner ∧ ∀ value, q.Submitted value ↔ p.Submitted value := by
  induction calls generalizing p with
  | nil =>
      obtain rfl := Option.some.inj run
      exact ⟨rfl, fun _ => Iff.rfl⟩
  | cons call calls ih =>
      rw [List.foldlM_cons] at run
      obtain ⟨u, hu, rest⟩ := Option.bind_eq_some_iff.mp run
      obtain ⟨hlearner, hsubmitted⟩ := deliver_keeps hu
      obtain ⟨hlearner', hsubmitted'⟩ := ih rest
      exact ⟨hlearner'.trans hlearner, fun value => (hsubmitted' value).trans (hsubmitted value)⟩

end Process

/-! ### One step of the system -/

section System

variable {cfg : Config} {D : Deployment cfg} {σ τ : SystemState D} {action : Action D}

/-- What a step does to a process, as far as clients see it. -/
structure ProcessMoves (action : Action D) (i : Fin D.processes) (p q : Process) : Prop where
  learner : ∃ events : List LearnerEvent, q.learner = events.foldl (learnerEvent cfg) p.learner
  submitted : ∀ value, q.Submitted value ↔ p.Submitted value ∨ action = .submit i value

theorem ProcessMoves.same {i : Fin D.processes} {p : Process}
    (quiet : ∀ value, action ≠ .submit i value) : ProcessMoves action i p p :=
  ⟨⟨[], rfl⟩, fun value => (or_iff_left (quiet value)).symm⟩

theorem processMoves_set {i j : Fin D.processes} {p : Process}
    (own : ProcessMoves action i (σ.processes i) p)
    (quiet : ∀ value, i ≠ j → action ≠ .submit j value) :
    ProcessMoves action j (σ.processes j) ((σ.setProcess i p).processes j) := by
  by_cases hj : j = i
  · subst hj
    simpa [SystemState.setProcess] using own
  · have hsame : (σ.setProcess i p).processes j = σ.processes j := Function.update_of_ne hj _ _
    rw [hsame]
    exact .same fun value => quiet value (Ne.symm hj)

/-- A process whose proposer takes a step of its own. -/
theorem ProcessMoves.propose {i : Fin D.processes} {p : Process} {s t : ProposerState}
    {event : ProposerEvent} (proposer : p.proposer = some s) (move : proposerStep s event = some t)
    (label : ∀ value, event = .submit value ↔ action = .submit i value) :
    ProcessMoves action i p { p with proposer := some t } := by
  refine ⟨⟨[], rfl⟩, fun value => ?_⟩
  simp only [Process.Submitted, proposer, Option.some.injEq, exists_eq_left']
  rw [proposerStep_submits move value, label value]

theorem ProcessMoves.receive {i : Fin D.processes} {p q : Process} {msg : PaxosMsg}
    (run : p.receive cfg msg = some q) : ProcessMoves (.receive i msg : Action D) i p q := by
  unfold Process.receive at run
  split at run
  · next lmsg _ =>
      obtain ⟨hlearner, hsubmitted⟩ := delivers_keeps _ run
      exact ⟨⟨[.learn lmsg], hlearner⟩,
        fun value => (hsubmitted value).trans (or_iff_left fun h => by cases h).symm⟩
  · obtain rfl := Option.some.inj run
    exact ⟨⟨[], rfl⟩, fun value => (or_iff_left fun h => by cases h).symm⟩
  · obtain rfl := Option.some.inj run
    exact .same fun value h => by cases h

theorem act_processMoves (move : act σ action = some τ) (i : Fin D.processes) :
    ProcessMoves action i (σ.processes i) (τ.processes i) := by
  cases action with
  | acceptor a msg =>
      obtain ⟨-, run⟩ := Option.ite_none_right_eq_some.mp move
      obtain ⟨s, -, rfl⟩ := Option.map_eq_some_iff.mp run
      exact .same fun value h => by cases h
  | receive j msg =>
      obtain ⟨-, run⟩ := Option.ite_none_right_eq_some.mp move
      obtain ⟨p, hp, rfl⟩ := Option.map_eq_some_iff.mp run
      exact processMoves_set (.receive hp) fun value _ h => by cases h
  | lsyncTimer j =>
      obtain rfl := Option.some.inj move
      exact processMoves_set
        ⟨⟨[.lsyncTimer], rfl⟩, fun value => (or_iff_left fun h => by cases h).symm⟩
        fun value _ h => by cases h
  | phase1Timer j | phase2Timer j =>
      obtain ⟨l, -, rfl⟩ := Option.map_eq_some_iff.mp move
      exact processMoves_set
        ⟨⟨[], rfl⟩, fun value => (or_iff_left fun h => by cases h).symm⟩
        fun value _ h => by cases h
  | timeout j ti =>
      obtain ⟨s, hs, run⟩ := Option.bind_eq_some_iff.mp move
      obtain ⟨armed, ht⟩ := Option.ite_none_right_eq_some.mp run
      obtain rfl := Option.some.inj ht
      have hstep : proposerStep s (.timeout ti) = some _ := if_pos armed
      refine processMoves_set (.propose hs hstep fun value => ?_) fun value _ h => by cases h
      exact ⟨fun h => (by cases h), fun h => (by cases h)⟩
  | submit j v =>
      obtain ⟨s, hs, run⟩ := Option.bind_eq_some_iff.mp move
      obtain ⟨idle, ht⟩ := Option.ite_none_right_eq_some.mp run
      obtain rfl := Option.some.inj ht
      have hstep : proposerStep s (.submit v) = some _ := if_pos idle
      refine processMoves_set (.propose hs hstep fun value => ?_) ?_
      · constructor
        · intro h
          cases h
          rfl
        · intro h
          cases h
          rfl
      · intro value hne h
        cases h
        exact hne rfl

/-! ### The sequence -/

/-- What clients have submitted so far. -/
def SystemState.submitted (σ : SystemState D) : Set Bytes :=
  { value | ∃ i, (σ.processes i).Submitted value }

/-- The broadcast that the learners have seen so far. -/
def SystemState.broadcast (σ : SystemState D) : Broadcast.State (Fin D.processes) Bytes :=
  seenBy (List.finRange D.processes) σ.submitted fun i => (σ.processes i).values

/-- Every learner is in a run of its own. -/
theorem learners_run {guard : SystemState D → Action D → Prop} (h : Reachable (system D) guard σ)
    (i : Fin D.processes) : ∃ events, (σ.processes i).learner = learnerRun cfg events := by
  induction h with
  | init start =>
      obtain rfl := start
      refine ⟨[], ?_⟩
      simp only [systemStart]
      cases D.role i <;> rfl
  | step before ok move ih =>
      obtain ⟨events, hevents⟩ := ih
      obtain ⟨more, hmore⟩ := (act_processMoves move i).learner
      refine ⟨events ++ more, ?_⟩
      rw [hmore, hevents, learnerRun, learnerRun, List.foldl_append]

theorem start_values (i : Fin D.processes) : ((systemStart D).processes i).values = [] := by
  simp only [systemStart, Process.values]
  cases D.role i <;> rfl

theorem start_submitted : (systemStart D).submitted = ∅ := by
  refine Set.eq_empty_of_forall_notMem fun value => ?_
  intro ⟨i, s, hs, hmem⟩
  have htrace : s.trace = [] := by
    simp only [systemStart] at hs
    cases hrole : D.role i <;> rw [hrole] at hs <;> cases hs <;> rfl
  rw [htrace] at hmem
  cases hmem

theorem delivered_grow {guard : SystemState D → Action D → Prop} (h : Reachable (system D) guard σ)
    (move : act σ action = some τ) (i : Fin D.processes) :
    (σ.processes i).learner.delivered <:+ (τ.processes i).learner.delivered := by
  obtain ⟨events, hevents⟩ := learners_run h i
  obtain ⟨more, hmore⟩ := (act_processMoves move i).learner
  have hrun : (τ.processes i).learner = learnerRun cfg (events ++ more) := by
    rw [hmore, hevents, learnerRun, learnerRun, List.foldl_append]
  rw [hrun, hevents]
  exact learnerRun_suffix cfg events more

theorem values_grow {guard : SystemState D → Action D → Prop} (h : Reachable (system D) guard σ)
    (move : act σ action = some τ) (i : Fin D.processes) :
    (σ.processes i).values <+: (τ.processes i).values :=
  (List.reverse_prefix.mpr (delivered_grow h move i)).map DeliverCall.value

/-- Calls in the order of their instances that agree where they name the same one. -/
theorem values_prefix {calls calls' : List DeliverCall} {n n' : Nat}
    (order : calls.map DeliverCall.iid = (List.range n).map fun (k : Nat) => (k : Int))
    (order' : calls'.map DeliverCall.iid = (List.range n').map fun (k : Nat) => (k : Int))
    (agree : ∀ d ∈ calls, ∀ d' ∈ calls', d.iid = d'.iid → d.value = d'.value) (le : n ≤ n') :
    calls.map DeliverCall.value <+: calls'.map DeliverCall.value := by
  have hlength : calls.length = n := by simpa using congrArg List.length order
  have hlength' : calls'.length = n' := by simpa using congrArg List.length order'
  rw [List.prefix_iff_eq_take]
  apply List.ext_getElem
  · simp
    omega
  · intro k hk hk'
    have hk : k < calls.length := by simpa using hk
    have hk' : k < calls'.length := by omega
    -- the call at place `k` is for instance `k`
    have hiid : calls[k].iid = k := by
      have := congrArg (·[k]?) order
      simpa [hk, show k < n by omega] using this
    have hiid' : calls'[k].iid = k := by
      have := congrArg (·[k]?) order'
      simpa [hk', show k < n' by omega] using this
    have := agree calls[k] (List.getElem_mem hk) calls'[k] (List.getElem_mem hk')
      (hiid.trans hiid'.symm)
    simpa using this

/-- The accepts carry what clients have submitted, those of the leader by recovering it. -/
theorem SystemOk.sent_submitted {cond : DiskEnv → AcceptorState → AcceptorOp → Prop}
    {learned : SystemState D → LearnMsg → Prop} {C : Type} {content : AcceptMsg → C}
    (h : SystemOk cond learned (SystemState.Safe content) σ)
    (votes : ∀ a, VotesSealed cfg (σ.acceptors a).stored (σ.acceptors a).log) {m : AcceptMsg}
    (sent : Sends σ.toAcceptors m) : m.value ∈ σ.submitted := by
  -- the induction is on the ballot of the accept
  induction hb : m.ballot.toNat using Nat.strong_induction_on generalizing m with
  | h b ih =>
      cases h.sender sent with
      | inl hp =>
          obtain ⟨i, s, id, hs, -, hsound, hm⟩ := hp
          exact ⟨i, s, hs, hsound.submitted m hm⟩
      | inr hl =>
          obtain ⟨i, l, -, -, hsound, hm⟩ := hl
          obtain ⟨a, p, m', hrecovers, -⟩ := (hsound.justified m hm).recovers
          have hsent := h.applied a m' hrecovers.accepted
          have hbelow := ((votes a).sealed p hrecovers.promised hrecovers.valued).below
          have hnonneg := (h.accept_wellFormed hsent).ballot_nonneg
          have hballot := hrecovers.ballot_eq
          have hpballot := hrecovers.promise_ballot
          rw [hrecovers.value_eq]
          exact ih m'.ballot.toNat (by omega) hsent rfl

/-- What learners in runs of their own deliver fits together. -/
theorem SystemOk.delivered_coherent (puts : ∀ a, (D.disk a).PutsSucceed)
    (distinct : D.IdsDistinct)
    (h : SystemOk (VotesKept False cfg) (SystemState.Learned True False)
      (SystemState.Safe AcceptMsg.value) σ)
    (runs : ∀ i, ∃ events, (σ.processes i).learner = learnerRun cfg events) :
    Coherent σ.submitted fun i => (σ.processes i).values := by
  have hvotes := acceptors_votesSealed puts
    (fun _ _ _ h => ⟨h.keepsValue, h.keepsVote⟩) h.acceptors
  have hpre : ∀ i j, (σ.processes i).learner.highestDelivered ≤
      (σ.processes j).learner.highestDelivered →
      (σ.processes i).values <+: (σ.processes j).values := by
    intro i j hle
    obtain ⟨events, hi⟩ := runs i
    obtain ⟨events', hj⟩ := runs j
    refine values_prefix (hi ▸ learnerRun_inOrder cfg events) (hj ▸ learnerRun_inOrder cfg events')
      ?_ (by omega)
    intro d hd d' hd'
    exact h.delivered_agree puts distinct (List.mem_reverse.mp hd) (List.mem_reverse.mp hd')
  constructor
  · intro i j
    exact (Int.le_total _ _).imp (hpre i j) (hpre j i)
  · intro i value hvalue
    obtain ⟨d, hd, rfl⟩ := List.mem_map.mp hvalue
    obtain ⟨m, hm, -, -, -, hmvalue, -⟩ :=
      h.delivered_chosen distinct (List.mem_reverse.mp hd)
    rw [← hmvalue]
    exact h.sent_submitted hvotes hm

theorem delivered_coherent (puts : ∀ a, (D.disk a).PutsSucceed) (distinct : D.IdsDistinct)
    (h : Reachable (system D) (Agrees False AcceptMsg.value) σ) :
    Coherent σ.submitted fun i => (σ.processes i).values :=
  (system_ok (agrees_keepsOk puts) h).delivered_coherent puts distinct (learners_run h)

theorem act_submitted (move : act σ action = some τ) :
    τ.submitted = σ.submitted ∨ ∃ value, τ.submitted = insert value σ.submitted := by
  refine submitted_cases (fun i j x y heq => ?_) fun i => (act_processMoves move i).submitted
  cases heq
  rfl

/-- As long as the runs agree on values, the system is a total order broadcast: its steps
submit values, put them into the sequence and deliver along it. -/
theorem broadcast_refinement (puts : ∀ a, (D.disk a).PutsSucceed) (distinct : D.IdsDistinct) :
    RefinementMap (system D) (Agrees False AcceptMsg.value)
      (Broadcast.broadcast (Fin D.processes) Bytes) anyStep SystemState.broadcast where
  start := by
    intro σ start
    obtain rfl := start
    rw [SystemState.broadcast, start_submitted]
    exact init_seenBy start_values
  step := fun σ action τ h ok move =>
    moves_submit_seenBy List.mem_finRange (delivered_coherent puts distinct (.step h ok move))
      (act_submitted move) (values_grow h move)

theorem broadcast_output (puts : ∀ a, (D.disk a).PutsSucceed) (distinct : D.IdsDistinct)
    (h : Reachable (system D) (Agrees False AcceptMsg.value) σ) (i : Fin D.processes) :
    σ.broadcast.output i = (σ.processes i).values :=
  (delivered_coherent puts distinct h).output List.mem_finRange i

end System
end LibFastPaxos
