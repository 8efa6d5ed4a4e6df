import LibFastPaxos.SystemGrowth

/-!
What holds in every state of a run of the system: each acceptor and each proposer is
in a run of its own, an acceptor applies only what was sent to it, and learners and
leader rest on the debug logs of the acceptors. What is known of the learns and why the
leader may send an accept are parameters, to be given for the property at hand.
-/

namespace LibFastPaxos

open Transition

/-! ### Runs of one proposer -/

/-- A proposer by itself, from the entry point of its role. -/
def proposerSystem (cfg : Config) (role : Role) : System ProposerState ProposerEvent where
  init := fun s => (role.start cfg).proposer = some s
  step := fun s event t => proposerStep s event = some t

section Proposer

variable {cfg : Config} {role : Role} {id : Int} {s t : ProposerState}

theorem ProposerSound.step (h : ProposerSound cfg id s) (nonneg : 0 ≤ id) {event : ProposerEvent}
    (move : proposerStep s event = some t) : ProposerSound cfg id t := by
  cases event with
  | submit value =>
      obtain ⟨idle, ht⟩ := Option.ite_none_right_eq_some.mp move
      obtain rfl := Option.some.inj ht
      exact h.submit nonneg idle value
  | deliver call => exact h.deliver (proposerDeliverCallback_outcome move).2
  | timeout ti =>
      obtain ⟨-, ht⟩ := Option.ite_none_right_eq_some.mp move
      obtain rfl := Option.some.inj ht
      exact h.checkTimeout ti

theorem start_proposer_sound (start : (role.start cfg).proposer = some s) :
    ∃ id, role.installedId? = some id ∧ ProposerSound cfg id s := by
  cases role with
  | learner => cases start
  | proposer propId isLeader =>
      cases start
      exact ⟨propId, rfl, proposerInit_sound cfg propId⟩
  | proposerAndDeliver propId isLeader f =>
      cases start
      exact ⟨_, rfl, proposerInitAndDeliver_sound propId f⟩

theorem proposer_sound (range : ∀ id, role.installedId? = some id → 0 ≤ id)
    (h : Reachable (proposerSystem cfg role) anyStep s) :
    ∃ id, role.installedId? = some id ∧ ProposerSound cfg id s := by
  induction h with
  | init start => exact start_proposer_sound start
  | step before ok move ih =>
      obtain ⟨id, hid, hsound⟩ := ih
      exact ⟨id, hid, hsound.step (range id hid) move⟩

end Proposer

/-! ### The learner sends lsyncs only -/

section Learner

variable {cfg : Config} {s : LearnerState}

theorem sends_lsyncPacket {ids : List Int} {sent : List PaxosMsg}
    (quiet : ∀ m, ¬ Sends sent m) : ∀ m, ¬ Sends (lsyncPacket ids :: sent) m := by
  intro m hm
  cases sends_cons.mp hm with
  | inl heq => cases heq
  | inr hold => exact quiet m hold

theorem askInstance_quiet {acc : LearnerState × List Int} (quiet : ∀ m, ¬ Sends acc.1.sent m)
    (i : Int) : ∀ m, ¬ Sends (askInstance cfg acc i).1.sent m := by
  simp only [askInstance]
  split
  · split
    · exact sends_lsyncPacket quiet
    · exact quiet
  · exact quiet

theorem lsyncCheck_quiet (quiet : ∀ m, ¬ Sends s.sent m) :
    ∀ m, ¬ Sends (lsyncCheck cfg s).sent m := by
  have hloop : ∀ (is : List Int) (acc : LearnerState × List Int),
      (∀ m, ¬ Sends acc.1.sent m) → ∀ m, ¬ Sends (is.foldl (askInstance cfg) acc).1.sent m := by
    intro is
    induction is with
    | nil => exact fun acc h => h
    | cons i is ih => exact fun acc h => ih _ (askInstance_quiet h i)
  simp only [lsyncCheck]
  split
  · unfold askRetransmission
    extract_lets count missing
    have hmissing := hloop missing (s, []) quiet
    generalize missing.foldl (askInstance cfg) (s, []) = res at hmissing ⊢
    obtain ⟨u, ids⟩ := res
    dsimp only at hmissing ⊢
    split
    · exact sends_lsyncPacket hmissing
    · exact hmissing
  · exact quiet

theorem updateRecord_sent (cfg : Config) (s : LearnerState) (lmsg : LearnMsg) :
    (updateRecord cfg s lmsg).1.sent = s.sent := by
  have hcase := updateRecord_case cfg s lmsg
  generalize updateRecord cfg s lmsg = res at hcase ⊢
  cases hcase with
  | outside | first | cleaned | closed | next | stale => rfl

theorem checkQuorum_sent (cfg : Config) (s : LearnerState) (lmsg : LearnMsg) :
    (checkQuorum cfg s lmsg).1.sent = s.sent := by
  simp only [checkQuorum]
  split <;> rfl

theorem deliverLoop_sent (fuel : Nat) (i : Int) : (deliverLoop cfg fuel s i).sent = s.sent := by
  induction fuel generalizing s i with
  | zero => rfl
  | succ fuel ih =>
      simp only [deliverLoop]
      split
      · rfl
      · exact ih _

theorem learnerHandleLearnMsg_sent (lmsg : LearnMsg) :
    (learnerHandleLearnMsg cfg s lmsg).sent = s.sent := by
  simp only [learnerHandleLearnMsg]
  generalize hseen : (if lmsg.iid > s.highestSeen then { s with highestSeen := lmsg.iid } else s) =
    s₁
  have h₁ : s₁.sent = s.sent := by
    rw [← hseen]
    split <;> rfl
  have h₂ := updateRecord_sent cfg s₁ lmsg
  split
  · next u hu =>
      rw [hu] at h₂
      exact h₂.trans h₁
  · next u hu =>
      rw [hu] at h₂
      have h₃ := checkQuorum_sent cfg u lmsg
      split
      · next v hv =>
          rw [hv] at h₃
          exact h₃.trans (h₂.trans h₁)
      · next v hv =>
          rw [hv] at h₃
          split
          · exact (deliverLoop_sent _ _).trans (h₃.trans (h₂.trans h₁))
          · exact h₃.trans (h₂.trans h₁)

end Learner

/-! ### A process -/

structure ProcessOk (cfg : Config) (role : Role) (learned : LearnMsg → Prop)
    (heard : Nat → PromiseMsg → Prop) (justified : AcceptMsg → Prop) (p : Process) : Prop where
  learner : LearnerSound cfg learned p.learner
  proposer : ∀ s, p.proposer = some s → Reachable (proposerSystem cfg role) anyStep s
  leader : ∀ l, p.leader = some l → role.isLeader = true ∧ LeaderSound cfg heard justified l
  delivered : ∀ s d, p.proposer = some s → ProposerEffect.deliver d ∈ s.trace →
    d ∈ p.learner.delivered
  lsyncs : ∀ m, ¬ Sends p.learner.sent m

section Process

variable {cfg : Config} {role : Role} {learned learned' : LearnMsg → Prop}
  {heard heard' : Nat → PromiseMsg → Prop} {justified justified' : AcceptMsg → Prop}
  {p q : Process}

theorem ProcessOk.mono (h : ProcessOk cfg role learned heard justified p)
    (learns : ∀ l, learned l → learned' l) (hears : ∀ j m, heard j m → heard' j m)
    (justifies : ∀ m, justified m → justified' m) :
    ProcessOk cfg role learned' heard' justified' p := by
  refine ⟨h.learner.mono learns, h.proposer, ?_, h.delivered, h.lsyncs⟩
  intro l hl
  obtain ⟨hrole, hsound⟩ := h.leader l hl
  exact ⟨hrole, hsound.mono hears fun m hm => justifies m (hsound.justified m hm)⟩

/-- The deliver calls among the new effects of a step. -/
theorem proposerStep_delivers {s t : ProposerState} {event : ProposerEvent}
    (move : proposerStep s event = some t) {d : DeliverCall}
    (hd : ProposerEffect.deliver d ∈ t.trace) :
    ProposerEffect.deliver d ∈ s.trace ∨ event = .deliver d := by
  cases event with
  | submit value =>
      obtain ⟨-, ht⟩ := Option.ite_none_right_eq_some.mp move
      obtain rfl := Option.some.inj ht
      left
      unfold proposerSubmitValue at hd
      dsimp only at hd
      split at hd
      · simpa [ProposerState.emit] using hd
      · simpa [ProposerState.emit, ProposerState.sendBuffer,
          ProposerState.setProposerCheckTimeout] using hd
  | deliver call =>
      obtain ⟨-, outcome⟩ := proposerDeliverCallback_outcome move
      have htold : ∀ {e},
          ProposerEffect.deliver d ∈ e :: (s.told call ++ .deliver call :: s.trace) →
          ProposerEffect.deliver d ≠ e →
          ProposerEffect.deliver d ∈ s.trace ∨ ProposerEvent.deliver call = .deliver d := by
        intro e he hne
        unfold ProposerState.told at he
        split at he
        · simp only [List.mem_cons, List.mem_append, List.not_mem_nil, or_false, hne, false_or,
            reduceCtorEq] at he
          exact he.symm.imp_right fun heq => by cases heq; rfl
        · simp only [List.mem_cons, List.nil_append, hne, false_or] at he
          exact he.symm.imp_right fun heq => by cases heq; rfl
      cases outcome with
      | idle waiting =>
          refine (List.mem_cons.mp hd).symm.imp_right fun heq => ?_
          cases heq
          rfl
      | woken waiting own | resent waiting other => exact htold hd fun heq => by cases heq
  | timeout ti =>
      obtain ⟨-, ht⟩ := Option.ite_none_right_eq_some.mp move
      obtain rfl := Option.some.inj ht
      left
      unfold proposerCheckTimeout at hd
      dsimp only at hd
      split at hd
      · simpa [ProposerState.emit, ProposerState.sendBuffer,
          ProposerState.setProposerCheckTimeout] using hd
      · exact hd

/-- A process whose proposer takes a step. -/
theorem ProcessOk.propose (h : ProcessOk cfg role learned heard justified p) {s t : ProposerState}
    {event : ProposerEvent} (proposer : p.proposer = some s) (move : proposerStep s event = some t)
    (called : ∀ d, event = .deliver d → d ∈ p.learner.delivered) (before : q.proposer = some t)
    (learner : q.learner = p.learner)
    (leader : ∀ l, q.leader = some l → role.isLeader = true ∧ LeaderSound cfg heard justified l) :
    ProcessOk cfg role learned heard justified q := by
  refine ⟨learner ▸ h.learner, ?_, leader, ?_, learner ▸ h.lsyncs⟩
  · intro u hu
    obtain rfl := Option.some.inj (before.symm.trans hu)
    exact .step (h.proposer s proposer) trivial move
  · intro u d hu hd
    obtain rfl := Option.some.inj (before.symm.trans hu)
    rw [learner]
    cases proposerStep_delivers move hd with
    | inl hold => exact h.delivered s d proposer hold
    | inr hnew => exact called d hnew

theorem ProcessOk.deliver (h : ProcessOk cfg role learned heard justified p) {call : DeliverCall}
    (called : call ∈ p.learner.delivered) (run : p.deliver call = some q) :
    ProcessOk cfg role learned heard justified q ∧ p.Grows q ∧ q.learner = p.learner := by
  unfold Process.deliver at run
  cases hs : p.proposer with
  | none =>
      rw [hs] at run
      obtain rfl := Option.some.inj run
      exact ⟨h, .refl p, rfl⟩
  | some s =>
      rw [hs] at run
      obtain ⟨t, ht, rfl⟩ := Option.map_eq_some_iff.mp run
      have move : proposerStep s (.deliver call) = some t := ht
      refine ⟨h.propose hs move ?_ rfl rfl ?_, ?_, rfl⟩
      · intro d hd
        cases hd
        exact called
      · intro l hl
        obtain ⟨l₀, hl₀, rfl⟩ := Option.map_eq_some_iff.mp hl
        obtain ⟨hrole, hsound⟩ := h.leader l₀ hl₀
        exact ⟨hrole, hsound.leaderDeliverValue call.iid⟩
      · refine .of_parts (List.Subset.refl _) (List.Subset.refl _) ?_ ?_
        · intro u hu
          obtain rfl := Option.some.inj (hs.symm.trans hu)
          exact ⟨t, rfl, proposerStep_trace move⟩
        · intro l hl
          exact ⟨leaderDeliverValue l call.iid, by simp [hl], List.Subset.refl _⟩

theorem ProcessOk.delivers (calls : List DeliverCall)
    (h : ProcessOk cfg role learned heard justified p)
    (called : ∀ call ∈ calls, call ∈ p.learner.delivered)
    (run : calls.foldlM Process.deliver p = some q) :
    ProcessOk cfg role learned heard justified q ∧ p.Grows q := by
  induction calls generalizing p with
  | nil =>
      obtain rfl := Option.some.inj run
      exact ⟨h, .refl p⟩
  | cons call calls ih =>
      rw [List.foldlM_cons] at run
      obtain ⟨u, hu, rest⟩ := Option.bind_eq_some_iff.mp run
      obtain ⟨hok, hgrows, hlearner⟩ := h.deliver (called call List.mem_cons_self) hu
      obtain ⟨hok', hgrows'⟩ := ih hok
        (fun c hc => hlearner ▸ called c (List.mem_cons_of_mem call hc)) rest
      exact ⟨hok', hgrows.trans hgrows'⟩

/-- The learner handles a learn; the deliver calls are still to come. -/
theorem ProcessOk.learn (h : ProcessOk cfg role learned heard justified p) {lmsg : LearnMsg}
    (backed : learned lmsg) :
    ProcessOk cfg role learned heard justified
        { p with learner := learnerHandleLearnMsg cfg p.learner lmsg } ∧
      p.Grows { p with learner := learnerHandleLearnMsg cfg p.learner lmsg } := by
  obtain ⟨hsound, new, hnew⟩ := h.learner.learnerHandleLearnMsg lmsg backed
  have hsub : p.learner.delivered ⊆ (learnerHandleLearnMsg cfg p.learner lmsg).delivered := by
    rw [hnew]
    exact List.subset_append_right _ _
  refine ⟨⟨hsound, h.proposer, h.leader, fun s d hs hd => hsub (h.delivered s d hs hd), ?_⟩, ?_⟩
  · rw [learnerHandleLearnMsg_sent]
    exact h.lsyncs
  · refine .of_parts ?_ hsub (fun s hs => ⟨s, hs, List.Subset.refl _⟩)
      (fun l hl => ⟨l, hl, List.Subset.refl _⟩)
    rw [learnerHandleLearnMsg_sent]
    exact List.Subset.refl _

theorem ProcessOk.handleLearn (h : ProcessOk cfg role learned heard justified p) {lmsg : LearnMsg}
    (backed : learned lmsg) (run : p.handleLearn cfg lmsg = some q) :
    ProcessOk cfg role learned heard justified q ∧ p.Grows q := by
  obtain ⟨hlearn, hgrows⟩ := h.learn backed
  obtain ⟨hok, hgrows'⟩ := hlearn.delivers _ (fun call hc => by
    unfold newDeliveries at hc
    exact List.mem_of_mem_take (List.mem_reverse.mp hc)) run
  exact ⟨hok, hgrows.trans hgrows'⟩

theorem ProcessOk.lsyncCheck (h : ProcessOk cfg role learned heard justified p) :
    ProcessOk cfg role learned heard justified { p with learner := lsyncCheck cfg p.learner } ∧
      p.Grows { p with learner := lsyncCheck cfg p.learner } := by
  obtain ⟨hsound, hdelivered⟩ := h.learner.lsyncCheck
  obtain ⟨packets, hpackets⟩ := lsyncCheck_sends cfg p.learner
  refine ⟨⟨hsound, h.proposer, h.leader, ?_, lsyncCheck_quiet h.lsyncs⟩, ?_⟩
  · intro s d hs hd
    rw [hdelivered]
    exact h.delivered s d hs hd
  · refine .of_parts ?_ ?_ (fun s hs => ⟨s, hs, List.Subset.refl _⟩)
      (fun l hl => ⟨l, hl, List.Subset.refl _⟩)
    · rw [hpackets]
      exact List.subset_append_right _ _
    · rw [hdelivered]
      exact List.Subset.refl _

/-- A process whose leader takes a step. -/
theorem ProcessOk.lead (h : ProcessOk cfg role learned heard justified p) {l l' : LeaderState}
    (leader : p.leader = some l) (sound : LeaderSound cfg heard justified l')
    (sent : l.sent ⊆ l'.sent) :
    ProcessOk cfg role learned heard justified { p with leader := some l' } ∧
      p.Grows { p with leader := some l' } := by
  refine ⟨⟨h.learner, h.proposer, ?_, h.delivered, h.lsyncs⟩, ?_⟩
  · intro u hu
    cases hu
    exact ⟨(h.leader l leader).1, sound⟩
  · refine .of_parts (List.Subset.refl _) (List.Subset.refl _)
      (fun s hs => ⟨s, hs, List.Subset.refl _⟩) ?_
    intro u hu
    obtain rfl := Option.some.inj (leader.symm.trans hu)
    exact ⟨l', rfl, sent⟩

/-- A proposer that submits or whose timeout goes off. -/
theorem ProcessOk.act (h : ProcessOk cfg role learned heard justified p) {s t : ProposerState}
    {event : ProposerEvent} (proposer : p.proposer = some s) (move : proposerStep s event = some t)
    (quiet : ∀ d, event ≠ .deliver d) :
    ProcessOk cfg role learned heard justified { p with proposer := some t } ∧
      p.Grows { p with proposer := some t } := by
  refine ⟨h.propose proposer move (fun d hd => absurd hd (quiet d)) rfl rfl h.leader, ?_⟩
  refine .of_parts (List.Subset.refl _) (List.Subset.refl _) ?_
    (fun l hl => ⟨l, hl, List.Subset.refl _⟩)
  intro u hu
  obtain rfl := Option.some.inj (proposer.symm.trans hu)
  exact ⟨t, rfl, proposerStep_trace move⟩

/-- A leader starts with the id that its process installs. -/
theorem start_leader {l : LeaderState} (start : (role.start cfg).leader = some l) :
    role.isLeader = true ∧ ∃ id, role.installedId? = some id ∧ l = leaderInit cfg id := by
  cases role with
  | learner => cases start
  | proposer propId isLeader | proposerAndDeliver propId isLeader f =>
      cases isLeader with
      | false => cases start
      | true => exact ⟨rfl, _, rfl, (Option.some.inj start).symm⟩

theorem start_trace {s : ProposerState} (start : (role.start cfg).proposer = some s) :
    s.trace = [] := by
  cases role with
  | learner => cases start
  | proposer propId isLeader | proposerAndDeliver propId isLeader f =>
      cases start
      rfl

theorem start_ok (range : ∀ id, role.installedId? = some id → 0 ≤ id ∧ id < cfg.maxProposers) :
    ProcessOk cfg role learned heard justified (role.start cfg) := by
  have hlearner : (role.start cfg).learner = learnerStart := by
    cases role <;> rfl
  refine ⟨hlearner ▸ learnerStart_sound, fun s hs => .init hs, ?_, ?_, ?_⟩
  · intro l hl
    obtain ⟨hlead, id, hid, rfl⟩ := start_leader hl
    exact ⟨hlead, leaderInit_sound (range id hid).1 (range id hid).2⟩
  · intro s d hs hd
    rw [start_trace hs] at hd
    cases hd
  · rw [hlearner]
    intro m ⟨packet, hp, _⟩
    cases hp

end Process

/-! ### The system -/

section System

variable {cfg : Config} {D : Deployment cfg}

/-- The promise is in the debug log of the acceptor. -/
def SystemState.Heard (σ : SystemState D) (j : Nat) (p : PromiseMsg) : Prop :=
  ∃ a : Fin cfg.nOfAcceptors, (a : Nat) = j ∧ LogLine.promised p ∈ (σ.acceptors a).log

/-- Every acceptor is in a run of its own that meets the condition. -/
def AcceptorsOk (cond : DiskEnv → AcceptorState → AcceptorOp → Prop) (σ : SystemState D) : Prop :=
  ∀ a, Reachable (acceptorSystem cfg (D.disk a))
    (MessageMeets cfg (D.disk a) (cond (D.disk a))) (σ.acceptors a)

structure SystemOk (cond : DiskEnv → AcceptorState → AcceptorOp → Prop)
    (learned : SystemState D → LearnMsg → Prop) (justified : SystemState D → AcceptMsg → Prop)
    (σ : SystemState D) : Prop where
  acceptors : AcceptorsOk cond σ
  acceptorId : ∀ a, (σ.acceptors a).acceptorId = (a : Nat)
  applied : ∀ a m, LogLine.acceptApplied m ∈ (σ.acceptors a).log → Sends σ.toAcceptors m
  processes : ∀ i, ProcessOk cfg (D.role i) (learned σ) σ.Heard (justified σ) (σ.processes i)

/-! Conditions on a step. -/

/-- An acceptor that handles a message meets the condition in every operation. -/
def AcceptorsMeet (cond : DiskEnv → AcceptorState → AcceptorOp → Prop) (σ : SystemState D) :
    Action D → Prop
  | .acceptor a msg => MessageMeets cfg (D.disk a) (cond (D.disk a)) (σ.acceptors a) msg
  | _ => True

/-- No ballot of the leader runs over when a timer goes off. -/
def NoOverflow (σ : SystemState D) : Action D → Prop
  | .phase1Timer i | .phase2Timer i => ∀ l, (σ.processes i).leader = some l → LeaderFits cfg l
  | _ => True

/-- The values that the leader picks for the records that a batch makes ready. -/
def PicksMeet (pick : SystemState D → ProposerRecord → PromiseInfo → Prop) (σ : SystemState D) :
    Action D → Prop
  | .receive i msg => ∀ l, (σ.processes i).leader = some l →
      ∀ batch, msg.data = .promise batch → ∀ k, k < cfg.proposerArraySize.size →
        ((storePromises cfg l batch).proposerArray k).status = .p1Ready →
        ∀ pi, phase2Value cfg ((storePromises cfg l batch).proposerArray k) = some pi →
          pick σ ((storePromises cfg l batch).proposerArray k) pi
  | _ => True

/-! Runs can be checked against these conditions. -/

instance (cond : DiskEnv → AcceptorState → AcceptorOp → Prop)
    [∀ env s op, Decidable (cond env s op)] (σ : SystemState D) :
    (action : Action D) → Decidable (AcceptorsMeet cond σ action)
  | .acceptor _ _ => Meets.decidable _ _
  | .receive _ _ | .lsyncTimer _ | .phase1Timer _ | .phase2Timer _ | .timeout _ _
  | .submit _ _ => isTrue trivial

instance (l : LeaderState) : Decidable (LeaderFits cfg l) :=
  inferInstanceAs (Decidable (∀ k, k < cfg.proposerArraySize.size → _))

instance (σ : SystemState D) : (action : Action D) → Decidable (NoOverflow σ action)
  | .phase1Timer i | .phase2Timer i =>
      inferInstanceAs (Decidable (∀ l, (σ.processes i).leader = some l → LeaderFits cfg l))
  | .acceptor _ _ | .receive _ _ | .lsyncTimer _ | .timeout _ _ | .submit _ _ => isTrue trivial

instance (pick : SystemState D → ProposerRecord → PromiseInfo → Prop)
    [∀ σ r pi, Decidable (pick σ r pi)] (σ : SystemState D) :
    (action : Action D) → Decidable (PicksMeet pick σ action)
  | .receive i _ => inferInstanceAs (Decidable (∀ l, (σ.processes i).leader = some l → _))
  | .acceptor _ _ | .lsyncTimer _ | .phase1Timer _ | .phase2Timer _ | .timeout _ _
  | .submit _ _ => isTrue trivial

/-- What makes `SystemOk` an invariant of the runs that a guard allows. -/
structure KeepsOk (D : Deployment cfg) (cond : DiskEnv → AcceptorState → AcceptorOp → Prop)
    (learned : SystemState D → LearnMsg → Prop) (justified : SystemState D → AcceptMsg → Prop)
    (pick : SystemState D → ProposerRecord → PromiseInfo → Prop)
    (guard : SystemState D → Action D → Prop) : Prop where
  puts : ∀ a, (D.disk a).PutsSucceed
  meets : ∀ σ action, guard σ action → AcceptorsMeet cond σ action
  fits : ∀ σ action, guard σ action → NoOverflow σ action
  picks : ∀ σ action, guard σ action → PicksMeet pick σ action
  learned_grows : ∀ σ τ l, σ.Grows τ → learned σ l → learned τ l
  learned_sent : ∀ σ a msg l, SystemOk cond learned justified σ → msg ∈ (σ.acceptors a).sent →
    msg.data = .learn l → learned σ l
  justified_grows : ∀ σ τ m, AcceptorsOk cond τ → σ.Grows τ → justified σ m → justified τ m
  justified_sent : ∀ σ k r pi, SystemOk cond learned justified σ → r.Sound cfg σ.Heard k →
    r.status = .p1Ready → phase2Value cfg r = some pi → pick σ r pi →
    justified σ (acceptOf cfg r pi)

section Preservation

variable {cond : DiskEnv → AcceptorState → AcceptorOp → Prop}
  {learned : SystemState D → LearnMsg → Prop} {justified : SystemState D → AcceptMsg → Prop}
  {pick : SystemState D → ProposerRecord → PromiseInfo → Prop}
  {guard : SystemState D → Action D → Prop} {σ τ : SystemState D}

theorem SystemState.Heard.mono {j : Nat} {p : PromiseMsg} (h : σ.Heard j p) (grows : σ.Grows τ) :
    τ.Heard j p := by
  obtain ⟨a, ha, hp⟩ := h
  exact ⟨a, ha, (grows.log a).subset hp⟩

theorem SystemOk.grow (keeps : KeepsOk D cond learned justified pick guard)
    (acceptors : AcceptorsOk cond τ) (grows : σ.Grows τ)
    {role : Role} {p : Process}
    (h : ProcessOk cfg role (learned σ) σ.Heard (justified σ) p) :
    ProcessOk cfg role (learned τ) τ.Heard (justified τ) p :=
  h.mono (fun l => keeps.learned_grows σ τ l grows) (fun _ _ hp => hp.mono grows)
    (fun m => keeps.justified_grows σ τ m acceptors grows)

theorem SystemOk.setProcess (keeps : KeepsOk D cond learned justified pick guard)
    (h : SystemOk cond learned justified σ) {i : Fin D.processes} {p : Process}
    (ok : ProcessOk cfg (D.role i) (learned σ) σ.Heard (justified σ) p)
    (grows : (σ.processes i).Grows p) : SystemOk cond learned justified (σ.setProcess i p) := by
  have hgrows : σ.Grows (σ.setProcess i p) := .setProcess grows
  have hacceptors : AcceptorsOk cond (σ.setProcess i p) := h.acceptors
  refine ⟨hacceptors, h.acceptorId, ?_, ?_⟩
  · intro a m hm
    exact (h.applied a m hm).mono hgrows.toAcceptors
  · intro j
    by_cases hj : j = i
    · subst hj
      have hsame : (σ.setProcess j p).processes j = p := Function.update_self _ _ _
      rw [hsame]
      exact SystemOk.grow keeps hacceptors hgrows ok
    · have hsame : (σ.setProcess i p).processes j = σ.processes j := Function.update_of_ne hj _ _
      rw [hsame]
      exact SystemOk.grow keeps hacceptors hgrows (h.processes j)

/-- Whatever is sent to the acceptors is well-formed. -/
theorem SystemOk.wellFormed (h : SystemOk cond learned justified σ) {packet : PaxosMsg}
    (sent : packet ∈ σ.toAcceptors) : packet.data.WellFormed := by
  obtain ⟨i, hi⟩ := mem_toAcceptors.mp sent
  have hok := h.processes i
  cases mem_sent.mp hi with
  | inl hlearner => exact hok.learner.packets packet hlearner
  | inr hother =>
      cases hother with
      | inl hproposer =>
          obtain ⟨s, hs, hmem⟩ := hproposer
          obtain ⟨id, -, hsound⟩ := proposer_sound
            (fun id hid => (D.installed_range i id hid).1) (hok.proposer s hs)
          exact hsound.packets packet hmem
      | inr hleader =>
          obtain ⟨l, hl, hmem⟩ := hleader
          exact (hok.leader l hl).2.packets packet hmem

theorem SystemOk.setAcceptor (keeps : KeepsOk D cond learned justified pick guard)
    (h : SystemOk cond learned justified σ) {a : Fin cfg.nOfAcceptors} {msg : PaxosMsg}
    (sent : msg ∈ σ.toAcceptors) {s : AcceptorState}
    (meets : MessageMeets cfg (D.disk a) (cond (D.disk a)) (σ.acceptors a) msg)
    (run : handleMessage cfg (D.disk a) (σ.acceptors a) msg = some s) :
    SystemOk cond learned justified (σ.setAcceptor a s) := by
  have hwf := h.wellFormed sent
  have hlogged := handleMessage_logged (keeps.puts a)
    (acceptor_coherent (keeps.puts a) (h.acceptors a)) hwf run
  have hgrows : σ.Grows (σ.setAcceptor a s) := .setAcceptor hlogged.log
  have hself : (σ.setAcceptor a s).acceptors a = s := Function.update_self _ _ _
  have hother : ∀ b, b ≠ a → (σ.setAcceptor a s).acceptors b = σ.acceptors b :=
    fun b hb => Function.update_of_ne hb _ _
  have hacceptors : AcceptorsOk cond (σ.setAcceptor a s) := by
    intro b
    by_cases hb : b = a
    · subst hb
      rw [hself]
      exact .step (h.acceptors b) meets ⟨hwf, run⟩
    · rw [hother b hb]
      exact h.acceptors b
  refine ⟨hacceptors, ?_, ?_, fun i => SystemOk.grow keeps hacceptors hgrows (h.processes i)⟩
  · intro b
    by_cases hb : b = a
    · subst hb
      rw [hself]
      exact hlogged.acceptorId.trans (h.acceptorId b)
    · rw [hother b hb]
      exact h.acceptorId b
  · intro b m hm
    by_cases hb : b = a
    · subst hb
      rw [hself] at hm
      cases hlogged.accepts m hm with
      | inl hold => exact h.applied b m hold
      | inr hnew => exact ⟨msg, sent, hnew⟩
    · rw [hother b hb] at hm
      exact h.applied b m hm

/-- Who sends an accept. -/
theorem SystemOk.sender (h : SystemOk cond learned justified σ) {m : AcceptMsg}
    (sent : Sends σ.toAcceptors m) :
    (∃ i s id, (σ.processes i).proposer = some s ∧ (D.role i).installedId? = some id ∧
        ProposerSound cfg id s ∧ Sends s.sent m) ∨
      ∃ i l, (σ.processes i).leader = some l ∧ (D.role i).isLeader = true ∧
        LeaderSound cfg σ.Heard (justified σ) l ∧ Sends l.sent m := by
  obtain ⟨packet, hpacket, hdata⟩ := sent
  obtain ⟨i, hi⟩ := mem_toAcceptors.mp hpacket
  have hok := h.processes i
  cases mem_sent.mp hi with
  | inl hlearner => exact absurd ⟨packet, hlearner, hdata⟩ (hok.lsyncs m)
  | inr hother =>
      cases hother with
      | inl hproposer =>
          obtain ⟨s, hs, hmem⟩ := hproposer
          obtain ⟨id, hid, hsound⟩ := proposer_sound
            (fun id hid => (D.installed_range i id hid).1) (hok.proposer s hs)
          exact .inl ⟨i, s, id, hs, hid, hsound, packet, hmem, hdata⟩
      | inr hleader =>
          obtain ⟨l, hl, hmem⟩ := hleader
          obtain ⟨hrole, hsound⟩ := hok.leader l hl
          exact .inr ⟨i, l, hl, hrole, hsound, packet, hmem, hdata⟩

/-- What the leader may rely on in a promise. -/
theorem SystemOk.heard (puts : ∀ a, (D.disk a).PutsSucceed)
    (h : SystemOk cond learned justified σ) {j : Nat} {p : PromiseMsg} (heard : σ.Heard j p) :
    0 ≤ p.iid ∧ (p.valueBallot ≠ -1 →
      p.valueSize = p.value.length ∧ p.valueSize ≤ paxosMaxValueSize) := by
  obtain ⟨a, -, hp⟩ := heard
  obtain ⟨hheld, hbacked⟩ := promises_backed (puts a) (h.acceptors a)
  refine ⟨(hbacked p hp).iid_nonneg, fun valued => ?_⟩
  obtain ⟨m, hm, -, -, hsize, hvalue⟩ := (hbacked p hp).reports valued
  have hwf := hheld.accepts m hm
  rw [hsize, hvalue]
  exact ⟨hwf.valueSize_eq, hwf.valueSize_le⟩

/-- The accept repeats the value of an older one, which the acceptor reported to its ballot. -/
structure Recovers (σ : SystemState D) (w : AcceptMsg) (a : Fin cfg.nOfAcceptors)
    (p : PromiseMsg) (m : AcceptMsg) : Prop where
  promised : LogLine.promised p ∈ (σ.acceptors a).log
  promise_iid : p.iid = w.iid
  promise_ballot : p.ballot = w.ballot
  valued : p.valueBallot ≠ -1
  accepted : LogLine.acceptApplied m ∈ (σ.acceptors a).log
  iid_eq : m.iid = w.iid
  ballot_eq : m.ballot = p.valueBallot
  valueSize_eq : w.valueSize = m.valueSize
  value_eq : w.value = m.value

theorem Recovers.mono {w : AcceptMsg} {a : Fin cfg.nOfAcceptors} {p : PromiseMsg} {m : AcceptMsg}
    (h : Recovers σ w a p m) (grows : σ.Grows τ) : Recovers τ w a p m :=
  { h with
    promised := (grows.log a).subset h.promised
    accepted := (grows.log a).subset h.accepted }

/-- The leader recovers the values that it picks. -/
theorem SystemOk.recovers (puts : ∀ a, (D.disk a).PutsSucceed)
    (h : SystemOk cond learned justified σ) {k : Nat} {r : ProposerRecord} {pi : PromiseInfo}
    (sound : r.Sound cfg σ.Heard k) (ready : r.status = .p1Ready)
    (value : phase2Value cfg r = some pi) :
    ∃ a p m, Recovers σ (acceptOf cfg r pi) a p m ∧ pi.valueBallot = m.ballot := by
  obtain ⟨⟨j, -, hj⟩, ⟨hiid, hvb⟩, -⟩ := phase2Value_spec value
  have hused : r.status ≠ .p1New := by
    rw [ready]
    simp
  obtain ⟨p, ⟨a, -, hp⟩, hpiid, hpballot, hrep⟩ := sound.promises hused j (by rw [hj]; exact hiid)
  rw [hj] at hrep
  have hvalued : p.valueBallot ≠ -1 := by
    rw [← hrep.valueBallot_eq]
    omega
  obtain ⟨hheld, hbacked⟩ := promises_backed (puts a) (h.acceptors a)
  obtain ⟨m, hm, hmiid, hmballot, hmsize, hmvalue⟩ := (hbacked p hp).reports hvalued
  obtain ⟨hsize, hvalue⟩ := hrep.value_eq hvalued
  refine ⟨a, p, m, ⟨hp, hpiid, hpballot, hvalued, hm, hmiid.trans hpiid, hmballot.symm,
    hsize.trans hmsize, ?_⟩, hrep.valueBallot_eq.trans hmballot⟩
  have hwf := (hheld.accepts m hm).valueSize_eq
  simp only [acceptOf, hvalue, Option.getD_some, hsize, memcpy_memcpy, hmsize, hmvalue]
  exact memcpy_of_length hwf

theorem SystemOk.promises (keeps : KeepsOk D cond learned justified pick guard)
    (h : SystemOk cond learned justified σ) {i : Fin D.processes} {msg : PaxosMsg}
    {batch : PromiseBatchMsg} {l : LeaderState} (sent : msg ∈ σ.fromAcceptors)
    (data : msg.data = .promise batch) (leader : (σ.processes i).leader = some l)
    (picks : PicksMeet pick σ (.receive i msg)) :
    LeaderSound cfg σ.Heard (justified σ) (leaderHandlePromiseMsg cfg l batch) := by
  obtain ⟨a, ha⟩ := mem_fromAcceptors.mp sent
  have hbatch := (acceptor_accountable (keeps.puts a) (h.acceptors a)).sends.promises msg ha batch
    data
  have howner : batch.acceptorId = (a : Nat) := hbatch.owner.trans (h.acceptorId a)
  have hheard : ∀ p ∈ batch.data, σ.Heard batch.acceptorId.toNat p := by
    intro p hp
    exact ⟨a, by omega, hbatch.logged p hp⟩
  have hsound := ((h.processes i).leader l leader).2
  have hstored := hsound.storePromises hheard
  apply hsound.leaderHandlePromiseMsg (fun j p hp => h.heard keeps.puts hp) hbatch.count_eq
    hbatch.nonempty hheard
  intro k pi ready value
  have hrecord := hstored.records k
  have hlt : k < cfg.proposerArraySize.size := by
    rw [← hrecord.in_place (by simp [ready])]
    exact cfg.proposerArraySize.index_lt hrecord.iid_nonneg
  exact keeps.justified_sent σ k _ pi h hrecord ready value
    (picks l leader batch data k hlt ready pi value)

theorem SystemOk.step (keeps : KeepsOk D cond learned justified pick guard)
    (h : SystemOk cond learned justified σ) {action : Action D} (ok : guard σ action)
    (move : act σ action = some τ) : SystemOk cond learned justified τ := by
  have hmeets := keeps.meets σ action ok
  have hfits := keeps.fits σ action ok
  have hpicks := keeps.picks σ action ok
  cases action with
  | acceptor a msg =>
      obtain ⟨sent, hrun⟩ := Option.ite_none_right_eq_some.mp move
      obtain ⟨s, hs, rfl⟩ := Option.map_eq_some_iff.mp hrun
      exact h.setAcceptor keeps sent hmeets hs
  | receive i msg =>
      obtain ⟨sent, hrun⟩ := Option.ite_none_right_eq_some.mp move
      obtain ⟨p, hp, rfl⟩ := Option.map_eq_some_iff.mp hrun
      unfold Process.receive at hp
      split at hp
      · next lmsg data =>
          obtain ⟨a, ha⟩ := mem_fromAcceptors.mp sent
          have hlearned := keeps.learned_sent σ a msg lmsg h ha data
          obtain ⟨hok, hgrows⟩ := (h.processes i).handleLearn hlearned hp
          exact h.setProcess keeps hok hgrows
      · next batch data =>
          obtain rfl := Option.some.inj hp
          cases hl : (σ.processes i).leader with
          | none =>
              have hsame : ({ σ.processes i with leader := none } : Process) = σ.processes i := by
                rw [← hl]
              rw [Option.map_none, hsame]
              exact h.setProcess keeps (h.processes i) (.refl _)
          | some l =>
              obtain ⟨hok, hgrows⟩ := (h.processes i).lead hl
                (h.promises keeps sent data hl hpicks) (leaderHandlePromiseMsg_sent cfg l batch)
              exact h.setProcess keeps hok hgrows
      · obtain rfl := Option.some.inj hp
        exact h.setProcess keeps (h.processes i) (.refl _)
  | lsyncTimer i =>
      obtain rfl := Option.some.inj move
      obtain ⟨hok, hgrows⟩ := (h.processes i).lsyncCheck
      exact h.setProcess keeps hok hgrows
  | phase1Timer i =>
      obtain ⟨l, hl, rfl⟩ := Option.map_eq_some_iff.mp move
      obtain ⟨hok, hgrows⟩ := (h.processes i).lead hl
        (((h.processes i).leader l hl).2.phase1CheckCb (hfits l hl)) (phase1CheckCb_sent cfg l)
      exact h.setProcess keeps hok hgrows
  | phase2Timer i =>
      obtain ⟨l', hl', rfl⟩ := Option.map_eq_some_iff.mp move
      obtain ⟨l, hl, hrun⟩ := Option.bind_eq_some_iff.mp hl'
      obtain ⟨hok, hgrows⟩ := (h.processes i).lead hl
        (((h.processes i).leader l hl).2.phase2CheckCb (hfits l hl) hrun) (phase2CheckCb_sent hrun)
      exact h.setProcess keeps hok hgrows
  | timeout i ti =>
      obtain ⟨s, hs, hrun⟩ := Option.bind_eq_some_iff.mp move
      obtain ⟨armed, hτ⟩ := Option.ite_none_right_eq_some.mp hrun
      obtain rfl := Option.some.inj hτ
      obtain ⟨hok, hgrows⟩ := (h.processes i).act hs
        (show proposerStep s (.timeout ti) = _ from if_pos armed) nofun
      exact h.setProcess keeps hok hgrows
  | submit i value =>
      obtain ⟨s, hs, hrun⟩ := Option.bind_eq_some_iff.mp move
      obtain ⟨idle, hτ⟩ := Option.ite_none_right_eq_some.mp hrun
      obtain rfl := Option.some.inj hτ
      obtain ⟨hok, hgrows⟩ := (h.processes i).act hs
        (show proposerStep s (.submit value) = _ from if_pos idle) nofun
      exact h.setProcess keeps hok hgrows

theorem systemStart_ok : SystemOk cond learned justified (systemStart D) := by
  refine ⟨fun a => .init ⟨_, rfl⟩, fun a => rfl, ?_, ?_⟩
  · intro a m hm
    cases hm
  · intro i
    exact start_ok (D.installed_range i)

theorem system_ok (keeps : KeepsOk D cond learned justified pick guard)
    (h : Reachable (system D) guard σ) : SystemOk cond learned justified σ := by
  refine Reachable.invariant ?_ ?_ h
  · intro s hs
    obtain rfl := hs
    exact systemStart_ok
  · intro s action t _ inv ok move
    exact inv.step keeps ok move

end Preservation
end System
end LibFastPaxos
