import LibFastPaxos.LearnerRetransmission
import LibFastPaxos.TotalOrder
import LibFastPaxos.Lib.Execution
import Mathlib.Order.Filter.Finite

/-!
What retransmission is for. A learner that misses what a quorum has accepted asks for it
whenever its timer goes off, each acceptor answers from its record, and the answers close
the instance: over links that lose messages, but not for ever, every chosen instance below
the highest one seen is delivered sooner or later.
-/

namespace LibFastPaxos

open Transition Packing Filter

/-! ### The learner -/

section Learner

variable {cfg : Config} {backed : LearnMsg → Prop} {s : LearnerState} {i : Int}

theorem kept_stored (h : LearnerSound cfg backed s) {a : Nat} {l : LearnMsg}
    (stored : (s.kept cfg i).learns a = some l) : backed l ∧ l.acceptorId = a ∧ l.iid = i := by
  by_cases own : (s.slot cfg i).iid = i
  · rw [kept_of_iid own] at stored
    obtain ⟨hbacked, hacceptor, hiid⟩ := (h.records _).stored a l stored
    exact ⟨hbacked, hacceptor, hiid.trans own⟩
  · rw [kept_of_ne own] at stored
    cases stored

/-- Acceptors whose newest learns have the ballot count for it. -/
theorem card_le_count {e : InstanceLog} {ballot : Int} {Q : Finset (Fin cfg.nOfAcceptors)}
    (newest : ∀ a ∈ Q, ∃ l, e.learns a = some l ∧ l.ballot = ballot) :
    (Q.card : Int) ≤ e.count cfg ballot := by
  let acceptors := (List.range cfg.nOfAcceptors).filter fun a =>
    (e.learns a).any fun l => l.ballot = ballot
  have hsub : Q.map Fin.valEmbedding ⊆ acceptors.toFinset := by
    intro k hk
    obtain ⟨a, ha, rfl⟩ := Finset.mem_map.mp hk
    obtain ⟨l, hl, hballot⟩ := newest a ha
    rw [List.mem_toFinset, List.mem_filter]
    exact ⟨List.mem_range.mpr a.isLt, by simp [hl, hballot]⟩
  have hcard : Q.card ≤ acceptors.length := by
    calc Q.card = (Q.map Fin.valEmbedding).card := (Finset.card_map _).symm
      _ ≤ acceptors.toFinset.card := Finset.card_le_card hsub
      _ ≤ acceptors.length := acceptors.toFinset_card_le
  exact Int.ofNat_le.mpr hcard

/-- A quorum of learns of one ballot, none of them followed by a newer one, closes the instance. -/
theorem closed_of_had {events : List LearnerEvent} {ballot : Int}
    {Q : Finset (Fin cfg.nOfAcceptors)} (quorum : cfg.quorum ≤ Q.card)
    (undelivered : (learnerRun cfg events).highestDelivered < i)
    (had : ∀ a ∈ Q, ∃ l : LearnMsg, (learnerRun cfg events).Had cfg l ∧
      l.acceptorId = (a : Nat) ∧ l.iid = i ∧ l.ballot = ballot)
    (newest : ∀ a ∈ Q, ∀ l, ((learnerRun cfg events).kept cfg i).learns a = some l →
      l.ballot ≤ ballot) : ((learnerRun cfg events).kept cfg i).closed.isSome := by
  by_contra hopen
  have hnone : ((learnerRun cfg events).kept cfg i).closed = none := by simpa using hopen
  have hshort := learnerRun_short cfg events undelivered hnone ballot
  have hcount : (Q.card : Int) ≤ ((learnerRun cfg events).kept cfg i).count cfg ballot := by
    apply card_le_count
    intro a ha
    obtain ⟨l, hhad, hacceptor, rfl, rfl⟩ := had a ha
    have hstale := (hhad.held undelivered).refused.resolve_left (by simp [hnone])
    have hlt := a.isLt
    simp only [InstanceLog.fresh, hacceptor, Int.toNat_natCast, Bool.and_eq_false_imp,
      decide_eq_true_eq] at hstale
    cases hkept : ((learnerRun cfg events).kept cfg l.iid).learns a with
    | none => simp [hkept] at hstale
    | some old =>
        have hle := newest a ha old hkept
        rw [hkept] at hstale
        have hge : ¬ old.ballot < l.ballot := by simpa using hstale
        exact ⟨old, rfl, by omega⟩
  omega

/-- The timer of a learner that has seen a later instance asks for the next one. -/
theorem lsyncCheck_asks_next (tight : LearnerTight cfg s) (placed : s.Placed cfg)
    (behind : s.highestDelivered + 1 < s.highestSeen) :
    ∃ packets, (lsyncCheck cfg s).sent = packets ++ s.sent ∧
      ∃ packet ∈ packets, s.highestDelivered + 1 ∈ packet.requested := by
  refine ⟨_, (asksFor_iff (by omega) _).mpr rfl, ?_⟩
  have hopen : ¬ s.ClosedAt cfg (s.highestDelivered + 1) := by
    intro hclosed
    have := tight.next_open
    rw [hclosed.2] at this
    cases this
  have hasked := (mem_asked placed tight.sound.low (s.highestDelivered + 1)).mpr
    ⟨by omega, behind, hopen⟩
  rw [← flatten_pack lsyncCapacity (s.lsyncIds.filter _), ← flatMap_requested,
    List.mem_flatMap] at hasked
  obtain ⟨packet, hpacket, hrequested⟩ := hasked
  exact ⟨packet, List.mem_reverse.mpr hpacket, hrequested⟩

end Learner

/-! ### The acceptors -/

/-- The acceptor has accepted it, and nothing above it for the instance. -/
structure StandsBy (log : List LogLine) (m : AcceptMsg) : Prop where
  accepted : LogLine.acceptApplied m ∈ log
  highest : ∀ m', LogLine.acceptApplied m' ∈ log → m'.iid = m.iid → m'.ballot ≤ m.ballot

/-- A learn that tells the ballot of the accept. -/
def PaxosMsg.Tells (packet : PaxosMsg) (acceptorId : Int) (m : AcceptMsg) : Prop :=
  ∃ l, packet.data = .learn l ∧ l.acceptorId = acceptorId ∧ l.iid = m.iid ∧ l.ballot = m.ballot

instance (log : List LogLine) (m : AcceptMsg) : Decidable (StandsBy log m) :=
  decidable_of_iff (LogLine.acceptApplied m ∈ log ∧
      ∀ m' ∈ log.filterMap (LogLine.acceptFor m.iid), m'.ballot ≤ m.ballot) (by
    constructor
    · intro ⟨accepted, highest⟩
      refine ⟨accepted, fun m' hm' hiid => highest m' (List.mem_filterMap.mpr ⟨_, hm', ?_⟩)⟩
      exact if_pos hiid
    · intro h
      refine ⟨h.accepted, fun m' hm' => ?_⟩
      obtain ⟨line, hline, haccept⟩ := List.mem_filterMap.mp hm'
      cases line with
      | acceptApplied w =>
          obtain ⟨hiid, heq⟩ := Option.ite_none_right_eq_some.mp haccept
          obtain rfl := Option.some.inj heq
          exact h.highest w hline hiid
      | promised _ | anyvalApplied _ _ => cases haccept)

section Acceptor

variable {cfg : Config} {env : DiskEnv} {owners : Prop} {s t : AcceptorState} {m : AcceptMsg}

/-- The record that an accurate lsync is answered from. -/
theorem StandsBy.record (stands : StandsBy s.log m) (coh : s.Coherent cfg)
    (held : ValuesHeld s.stored s.log) (votes : VotesSealed cfg s.stored s.log)
    (nonneg : 0 ≤ m.iid) (accurate : LsyncAccurate True owners cfg env s (.lsync m.iid)) :
    ∃ r, readRecord cfg env s m.iid = some r ∧ r.value.isSome ∧ r.iid = m.iid ∧
      r.ballot = m.ballot := by
  obtain ⟨hnonneg, f, hf, hle, -⟩ := votes.voted m stands.accepted
  have hread : (readRecord cfg env s m.iid).map flatten = some f :=
    (coh.read_eq env nonneg).trans hf
  obtain ⟨r, hr, rfl⟩ := Option.map_eq_some_iff.mp hread
  have hle : m.ballot ≤ r.valueBallot := hle
  have hvalued : r.valueBallot ≠ -1 := by omega
  have hfaithful := coh.read_some nonneg hr
  have hvalue : r.value.isSome := by
    cases hev : s.evicted cfg m.iid with
    | true => exact value_of_evicted hr hev
    | false => exact (hfaithful.value hev).mpr hvalued
  -- the value is that of the last accept, which is not above `m`
  obtain ⟨m', hlast, hballot, -⟩ := held.held m.iid _ hf hvalued
  obtain ⟨hm', hiid⟩ := lastAccept_mem hlast
  have hhighest := stands.highest m' hm' hiid
  have hballot : r.valueBallot = m'.ballot := hballot
  have hsame := (accurate r hr hvalue).2.1 trivial
  exact ⟨r, hr, hvalue, hfaithful.iid_eq, by omega⟩

/-- Between two lsyncs of a packet. -/
structure LsyncFrame (cfg : Config) (s t : AcceptorState) : Prop where
  coherent : t.Coherent cfg
  acceptorId : t.acceptorId = s.acceptorId
  stored : t.stored = s.stored
  log : t.log = s.log
  sent : s.sent <:+ t.sent

theorem LsyncFrame.trans {u : AcceptorState} (h : LsyncFrame cfg s t) (h' : LsyncFrame cfg t u) :
    LsyncFrame cfg s u :=
  ⟨h'.coherent, h'.acceptorId.trans h.acceptorId, h'.stored.trans h.stored, h'.log.trans h.log,
    h.sent.trans h'.sent⟩

theorem lsync_frame (puts : env.PutsSucceed) (coh : s.Coherent cfg) {iid : Int}
    (nonneg : 0 ≤ iid) : LsyncFrame cfg s (handleLsync cfg env s iid) := by
  have hwf : (AcceptorOp.lsync iid).WellFormed := nonneg
  obtain ⟨hcoh, hid, outcome⟩ := handleOp_outcome coh puts hwf rfl
  cases outcome with
  | answered read value stored log sent =>
      exact ⟨hcoh, hid, stored, log, sent ▸ List.suffix_cons _ _⟩
  | ignored stored log sent => exact ⟨hcoh, hid, stored, log, sent ▸ List.suffix_refl _⟩

theorem lsyncs_frame (puts : env.PutsSucceed) (ids : List Int) (coh : s.Coherent cfg)
    (nonneg : ∀ iid ∈ ids, 0 ≤ iid) :
    LsyncFrame cfg s (ids.foldl (handleLsync cfg env) s) := by
  induction ids generalizing s with
  | nil => exact ⟨coh, rfl, rfl, rfl, List.suffix_refl _⟩
  | cons iid ids ih =>
      have hfirst := lsync_frame puts coh (nonneg iid List.mem_cons_self)
      exact hfirst.trans (ih hfirst.coherent fun j hj => nonneg j (List.mem_cons_of_mem iid hj))

/-- Among the answers to a packet is one for every instance of it that the acceptor stands by. -/
theorem lsyncs_answered (puts : env.PutsSucceed) (ids : List Int) (coh : s.Coherent cfg)
    (nonneg : ∀ iid ∈ ids, 0 ≤ iid) (held : ValuesHeld s.stored s.log)
    (votes : VotesSealed cfg s.stored s.log) (stands : StandsBy s.log m) (asked : m.iid ∈ ids)
    (meets : Meets (handleOp cfg env) (VotesKept owners cfg env) s (ids.map .lsync)) :
    ∃ packets, (ids.foldl (handleLsync cfg env) s).sent = packets ++ s.sent ∧
      ∃ packet ∈ packets, packet.Tells s.acceptorId m := by
  induction ids generalizing s with
  | nil => cases asked
  | cons iid ids ih =>
      have hrest : ∀ j ∈ ids, 0 ≤ j := fun j hj => nonneg j (List.mem_cons_of_mem iid hj)
      have hfirst : LsyncFrame cfg s (handleLsync cfg env s iid) :=
        lsync_frame puts coh (nonneg iid List.mem_cons_self)
      have hlater : LsyncFrame cfg (handleLsync cfg env s iid)
          (ids.foldl (handleLsync cfg env) (handleLsync cfg env s iid)) :=
        lsyncs_frame puts ids hfirst.coherent hrest
      by_cases own : m.iid = iid
      · subst own
        obtain ⟨r, hr, hvalue, hiid, hballot⟩ :=
          stands.record coh held votes (nonneg _ List.mem_cons_self) meets.1.accurate
        have hsent : (handleLsync cfg env s m.iid).sent =
            learnPacket s.acceptorId r :: s.sent := by
          rw [lsync_sent, hr]
          exact if_pos hvalue
        obtain ⟨packets, hpackets⟩ := hlater.sent
        refine ⟨packets ++ [learnPacket s.acceptorId r], ?_, learnPacket s.acceptorId r, by simp,
          ?_⟩
        · rw [List.foldl_cons, ← hpackets, hsent, List.append_assoc]
          rfl
        · exact ⟨learnOf s.acceptorId r, rfl, rfl, hiid, hballot⟩
      · have hmem := (List.mem_cons.mp asked).resolve_left own
        obtain ⟨packets, hpackets, packet, hpacket, htells⟩ := ih hfirst.coherent hrest
          (by rw [hfirst.stored, hfirst.log]; exact held)
          (by rw [hfirst.stored, hfirst.log]; exact votes) (by rw [hfirst.log]; exact stands) hmem
          (meets.2 _ rfl)
        obtain ⟨before, hbefore⟩ := hfirst.sent
        refine ⟨packets ++ before, ?_, packet, List.mem_append_left _ hpacket, ?_⟩
        · rw [List.foldl_cons, hpackets, ← hbefore, List.append_assoc]
        · rwa [hfirst.acceptorId] at htells

/-- An acceptor that is asked for an instance that it stands by answers. -/
theorem lsync_answered (puts : env.PutsSucceed) (coh : s.Coherent cfg)
    (held : ValuesHeld s.stored s.log) (votes : VotesSealed cfg s.stored s.log)
    (stands : StandsBy s.log m) {msg : PaxosMsg} (wf : msg.data.WellFormed)
    (asked : m.iid ∈ msg.requested) (meets : MessageMeets cfg env (VotesKept owners cfg env) s msg)
    (run : handleMessage cfg env s msg = some t) :
    ∃ packets, t.sent = packets ++ s.sent ∧ ∃ packet ∈ packets, packet.Tells s.acceptorId m := by
  obtain ⟨size, data⟩ := msg
  cases data with
  | lsync lsmsg =>
      obtain rfl : handleBatchLsync cfg env s lsmsg = t := Option.some.inj run
      have hnonneg : ∀ iid ∈ lsmsg.ids.take lsmsg.count.toNat, 0 ≤ iid :=
        fun iid hiid => wf.ids_nonneg iid (List.mem_of_mem_take hiid)
      exact lsyncs_answered puts _ coh hnonneg held votes stands asked meets
  | prepare _ | accept _ | promise _ | learn _ | anyval _ => cases asked

end Acceptor

/-! ### Steps of the system -/

section Steps

variable {cfg : Config} {D : Deployment cfg} {σ τ : SystemState D}
  {guard : SystemState D → Action D → Prop}

theorem lsyncTimer_learner {i : Fin D.processes} (move : act σ (.lsyncTimer i) = some τ) :
    (τ.processes i).learner = lsyncCheck cfg (σ.processes i).learner := by
  obtain rfl := Option.some.inj move
  simp [SystemState.setProcess]

/-- A timer that finds nothing to ask for leaves everything as it is. -/
theorem lsyncTimer_idle {i : Fin D.processes}
    (nothing : (σ.processes i).learner.highestSeen ≤ (σ.processes i).learner.highestDelivered + 1) :
    act σ (.lsyncTimer i) = some σ := by
  have hidle : lsyncCheck cfg (σ.processes i).learner = (σ.processes i).learner := by
    rw [lsyncCheck]
    split
    · have hnone : (σ.processes i).learner.lsyncIds = [] := by
        rw [LearnerState.lsyncIds, Int.toNat_of_nonpos (by omega)]
        rfl
      rw [askRetransmission_eq, hnone]
      rfl
    · rfl
  have hsame : ({ σ.processes i with learner := lsyncCheck cfg (σ.processes i).learner } :
      Process) = σ.processes i := by rw [hidle]
  simp only [act, hsame, SystemState.setProcess, Function.update_eq_self]

theorem receive_learner {i : Fin D.processes} {packet : PaxosMsg} {l : LearnMsg}
    (move : act σ (.receive i packet) = some τ) (data : packet.data = .learn l) :
    (τ.processes i).learner = learnerHandleLearnMsg cfg (σ.processes i).learner l := by
  obtain ⟨-, run⟩ := Option.ite_none_right_eq_some.mp move
  obtain ⟨p, hp, rfl⟩ := Option.map_eq_some_iff.mp run
  rw [Process.receive, data] at hp
  simpa [SystemState.setProcess] using (delivers_keeps _ hp).1

theorem acceptor_handles {a : Fin cfg.nOfAcceptors} {packet : PaxosMsg}
    (move : act σ (.acceptor a packet) = some τ) : packet ∈ σ.toAcceptors ∧
      handleMessage cfg (D.disk a) (σ.acceptors a) packet = some (τ.acceptors a) := by
  obtain ⟨sent, run⟩ := Option.ite_none_right_eq_some.mp move
  obtain ⟨s, hs, rfl⟩ := Option.map_eq_some_iff.mp run
  exact ⟨sent, by simpa [SystemState.setAcceptor] using hs⟩

/-- What every event of a learner keeps, every step of the system keeps. -/
theorem learner_keeps {P : LearnerState → Prop}
    (event : ∀ s e, LearnerTight cfg s → P s → P (learnerEvent cfg s e))
    (h : Reachable (system D) guard σ) {action : Action D} (move : act σ action = some τ)
    {i : Fin D.processes} (holds : P (σ.processes i).learner) : P (τ.processes i).learner := by
  obtain ⟨before, hbefore⟩ := learners_run h i
  obtain ⟨events, hevents⟩ := (act_processMoves move i).learner
  have htight : LearnerTight cfg (σ.processes i).learner := hbefore ▸ learnerRun_tight cfg before
  rw [hevents]
  clear hevents hbefore
  generalize (σ.processes i).learner = s at htight holds ⊢
  induction events generalizing s with
  | nil => exact holds
  | cons e events ih => exact ih _ (htight.event e) (event s e htight holds)

theorem highestSeen_event (s : LearnerState) (e : LearnerEvent) :
    s.highestSeen ≤ (learnerEvent cfg s e).highestSeen := by
  cases e with
  | learn lmsg =>
      rw [learnerEvent, handleLearn_highestSeen]
      exact le_max_left _ _
  | lsyncTimer =>
      obtain ⟨packets, hpackets⟩ := lsyncCheck_sends cfg s
      rw [learnerEvent, hpackets]

end Steps

/-! ### Infinite runs -/

/-- What a step adds to the packets sent. -/
def newPackets (before after : List PaxosMsg) : List PaxosMsg :=
  after.take (after.length - before.length)

theorem newPackets_append (packets before : List PaxosMsg) :
    newPackets before (packets ++ before) = packets := by
  simp [newPackets]

theorem newPackets_self (before : List PaxosMsg) : newPackets before before = [] :=
  newPackets_append [] before

abbrev SystemRun {cfg : Config} (D : Deployment cfg)
    (guard : SystemState D → Action D → Prop) := Execution (system D) guard

namespace SystemRun

variable {cfg : Config} {D : Deployment cfg} {guard : SystemState D → Action D → Prop}
  (E : SystemRun D guard) (i : Fin D.processes) (a : Fin cfg.nOfAcceptors) {m : AcceptMsg}

def learner (n : Nat) : LearnerState := ((E.state n).processes i).learner

def acceptor (n : Nat) : AcceptorState := (E.state n).acceptors a

/-- The lsyncs that the learner sends in a step. -/
def asked (n : Nat) : Set PaxosMsg :=
  { packet | packet ∈ newPackets (E.learner i n).sent (E.learner i (n + 1)).sent }

def handed (n : Nat) : Set PaxosMsg := { packet | E.label n = some (.acceptor a packet) }

/-- The promises and learns that the acceptor sends in a step. -/
def answered (n : Nat) : Set PaxosMsg :=
  { packet | packet ∈ newPackets (E.acceptor a n).sent (E.acceptor a (n + 1)).sent }

def heard (n : Nat) : Set PaxosMsg := { packet | E.label n = some (.receive i packet) }

/-- The links between a learner and an acceptor are fair. -/
structure Linked : Prop where
  asks : FairLink (E.asked i) (E.handed a)
  answers : FairLink (E.answered a) (E.heard i)

/-- From some time on a quorum stands by the accept, over fair links to the learner. -/
def Settles (m : AcceptMsg) : Prop :=
  ∃ Q : Finset (Fin cfg.nOfAcceptors), cfg.quorum ≤ Q.card ∧
    ∀ a ∈ Q, E.Linked i a ∧ ∀ᶠ n in atTop, StandsBy (E.acceptor a n).log m

section Progress

variable {E i a} {owners : Prop} {justified : SystemState D → AcceptMsg → Prop}
  {pick : SystemState D → ProposerRecord → PromiseInfo → Prop}

theorem learner_at {n : Nat} {σ : SystemState D} (state : E.state n = σ) :
    E.learner i n = (σ.processes i).learner := by
  rw [learner, state]

theorem tight (n : Nat) : LearnerTight cfg (E.learner i n) ∧ (E.learner i n).Placed cfg := by
  obtain ⟨events, hevents⟩ := learners_run (E.reachable n) i
  rw [learner, hevents]
  exact ⟨learnerRun_tight cfg events, learnerRun_placed cfg events⟩

theorem learner_eventually {P : LearnerState → Prop}
    (event : ∀ s e, LearnerTight cfg s → P s → P (learnerEvent cfg s e)) {n : Nat}
    (holds : P (E.learner i n)) : ∀ᶠ n in atTop, P (E.learner i n) :=
  E.eventually (P := fun σ => P (σ.processes i).learner)
    (fun _ _ _ reach _ move => learner_keeps event reach move) holds

/-- A learner that is stuck below the highest instance seen asks again and again. -/
theorem asks_often {iid : Int} (timer : ∃ᶠ n in atTop, E.label n = some (.lsyncTimer i))
    (stuck : ∀ᶠ n in atTop,
      (E.learner i n).highestDelivered + 1 = iid ∧ iid < (E.learner i n).highestSeen) :
    ∃ᶠ n in atTop, (E.asked i n ∩ { packet | iid ∈ packet.requested }).Nonempty := by
  refine (timer.and_eventually stuck).mono ?_
  intro n ⟨hlabel, hnext, hseen⟩
  obtain ⟨htight, hplaced⟩ := E.tight (i := i) n
  have hmove := lsyncTimer_learner (E.moves n _ hlabel).2
  obtain ⟨packets, hsent, packet, hpacket, hrequested⟩ :=
    lsyncCheck_asks_next htight hplaced (by omega)
  refine ⟨packet, ?_, hnext ▸ hrequested⟩
  have hsent : (E.learner i (n + 1)).sent = packets ++ (E.learner i n).sent := by
    rw [learner, hmove]
    exact hsent
  rw [asked, Set.mem_ofPred_eq, hsent, newPackets_append]
  exact hpacket

/-- An acceptor that stands by an accept answers again and again. -/
theorem answers_often
    (keeps : KeepsOk D (VotesKept owners cfg) (SystemState.Learned True owners) justified pick
      guard)
    (stands : ∀ᶠ n in atTop, StandsBy (E.acceptor a n).log m)
    (often : ∃ᶠ n in atTop, (E.handed a n ∩ { packet | m.iid ∈ packet.requested }).Nonempty) :
    ∃ᶠ n in atTop, (E.answered a n ∩ { packet | packet.Tells (a : Nat) m }).Nonempty := by
  refine (often.and_eventually stands).mono ?_
  intro n ⟨⟨packet, hlabel, hasked⟩, hstands⟩
  obtain ⟨hguard, hmove⟩ := E.moves n _ hlabel
  obtain ⟨hsent, hrun⟩ := acceptor_handles hmove
  have hok := system_ok keeps (E.reachable n)
  have hanswerable :=
    acceptor_answerable (keeps.puts a) (fun _ _ h => h.accurate) (hok.acceptors a)
  have hvotes := acceptors_votesSealed keeps.puts
    (fun _ _ _ h => ⟨h.keepsValue, h.keepsVote⟩) hok.acceptors a
  obtain ⟨packets, hpackets, answer, hanswer, htells⟩ := lsync_answered (keeps.puts a)
    hanswerable.coherent hanswerable.held hvotes hstands (hok.wellFormed hsent) hasked
    (keeps.meets _ _ hguard) hrun
  rw [hok.acceptorId a] at htells
  refine ⟨answer, ?_, htells⟩
  have hnew : (E.acceptor a (n + 1)).sent = packets ++ (E.acceptor a n).sent := hpackets
  rw [answered, Set.mem_ofPred_eq, hnew, newPackets_append]
  exact hanswer

/-- An answer that reaches a learner with a slot for it is kept. -/
theorem hears_eventually (room : 2 ≤ cfg.learnerArraySize.size)
    (stuck : ∀ᶠ n in atTop, (E.learner i n).highestDelivered + 1 = m.iid)
    (often : ∃ᶠ n in atTop, (E.heard i n ∩ { packet | packet.Tells (a : Nat) m }).Nonempty) :
    ∀ᶠ n in atTop, ∃ l : LearnMsg, (E.learner i n).Had cfg l ∧ l.acceptorId = (a : Nat) ∧
      l.iid = m.iid ∧ l.ballot = m.ballot := by
  obtain ⟨n, ⟨packet, hlabel, l, hdata, hacceptor, hiid, hballot⟩, hnext⟩ :=
    (often.and_eventually stuck).exists
  have hmove := receive_learner (E.moves n _ hlabel).2 hdata
  have hhad : (E.learner i (n + 1)).Had cfg l := by
    rw [learner, hmove]
    exact (E.tight n).1.had (by omega)
  have hkept : ∀ᶠ n in atTop, (E.learner i n).Had cfg l :=
    learner_eventually (P := fun s => s.Had cfg l)
      (fun _ e htight had => had.event htight e) hhad
  exact hkept.mono fun _ had => ⟨l, had, hacceptor, hiid, hballot⟩

/-- A learner is not stuck for ever at an instance that a quorum has settled. -/
theorem not_stuck
    (keeps : KeepsOk D (VotesKept owners cfg) (SystemState.Learned True owners) justified pick
      guard)
    (room : 2 ≤ cfg.learnerArraySize.size)
    (timer : ∃ᶠ n in atTop, E.label n = some (.lsyncTimer i)) (settles : E.Settles i m) :
    ¬ ∀ᶠ n in atTop,
      (E.learner i n).highestDelivered + 1 = m.iid ∧ m.iid < (E.learner i n).highestSeen := by
  intro stuck
  obtain ⟨Q, hquorum, hQ⟩ := settles
  have hnext := stuck.mono fun _ h => h.1
  have hhad : ∀ᶠ n in atTop, ∀ a ∈ Q, ∃ l : LearnMsg, (E.learner i n).Had cfg l ∧
      l.acceptorId = (a : Nat) ∧ l.iid = m.iid ∧ l.ballot = m.ballot := by
    rw [eventually_all_finset]
    intro a ha
    obtain ⟨hlinked, hstands⟩ := hQ a ha
    have hasked := hlinked.asks _ (asks_often timer stuck)
    have hanswered := hlinked.answers _ (answers_often keeps hstands hasked)
    exact hears_eventually room hnext hanswered
  have hstands : ∀ᶠ n in atTop, ∀ a ∈ Q, StandsBy (E.acceptor a n).log m :=
    (eventually_all_finset Q).mpr fun a ha => (hQ a ha).2
  obtain ⟨n, ⟨hhad, hstands⟩, hnext⟩ := ((hhad.and hstands).and hnext).exists
  have hok := system_ok keeps (E.reachable n)
  have hnewest : ∀ a ∈ Q, ∀ l, ((E.learner i n).kept cfg m.iid).learns a = some l →
      l.ballot ≤ m.ballot := by
    intro a ha l hl
    -- the learn repeats an accept of the same acceptor
    obtain ⟨⟨b, m', hm', hb, hliid, -, -, hballot, -⟩, hacceptor, hiid⟩ :=
      kept_stored (hok.processes i).learner hl
    obtain rfl : b = a := Fin.ext (by omega)
    have := (hstands b ha).highest m' hm' (hliid.symm.trans hiid)
    have := hballot trivial
    omega
  obtain ⟨events, hevents⟩ := learners_run (E.reachable n) i
  have htight := (E.tight (i := i) n).1
  have hclosed : ((E.learner i n).kept cfg m.iid).closed.isSome := by
    rw [learner, hevents] at hhad hnewest hnext ⊢
    exact closed_of_had hquorum (by omega) hhad hnewest
  rw [← hnext, htight.next_closed] at hclosed
  cases hclosed

/-- Links over which nothing is sent any more are fair. -/
theorem linked_of_still {n : Nat} (still : ∀ m, n ≤ m → E.state (m + 1) = E.state m) :
    E.Linked i a := by
  constructor
  · refine .of_quiet (n := n) fun m hm => Set.eq_empty_of_forall_notMem fun packet hpacket => ?_
    rw [asked, Set.mem_ofPred_eq, learner, learner, still m hm, newPackets_self] at hpacket
    cases hpacket
  · refine .of_quiet (n := n) fun m hm => Set.eq_empty_of_forall_notMem fun packet hpacket => ?_
    rw [answered, Set.mem_ofPred_eq, acceptor, acceptor, still m hm, newPackets_self] at hpacket
    cases hpacket

/-- Up to the last settled instance below the highest one seen. -/
theorem delivers_up_to
    (keeps : KeepsOk D (VotesKept owners cfg) (SystemState.Learned True owners) justified pick
      guard)
    (room : 2 ≤ cfg.learnerArraySize.size)
    (timer : ∃ᶠ n in atTop, E.label n = some (.lsyncTimer i)) {last : Int}
    (seen : ∃ n, last < (E.learner i n).highestSeen)
    (settled : ∀ iid, 0 ≤ iid → iid ≤ last → ∃ m, m.iid = iid ∧ E.Settles i m) (count : Nat)
    (le : (count : Int) ≤ last + 1) :
    ∀ᶠ n in atTop, (count : Int) ≤ (E.learner i n).highestDelivered + 1 := by
  induction count with
  | zero =>
      refine .of_forall fun n => ?_
      have := (E.tight (i := i) n).1.sound.low
      omega
  | succ count ih =>
      by_contra never
      obtain ⟨m, hiid, hsettles⟩ := settled count (by omega) (by omega)
      obtain ⟨n, hseen⟩ := seen
      have hlater : ∀ᶠ n in atTop, last < (E.learner i n).highestSeen :=
        learner_eventually (P := fun s => last < s.highestSeen)
          (fun s e _ h => Int.lt_of_lt_of_le h (highestSeen_event s e)) hseen
      -- once above, the learner stays above
      have hbelow : ∀ n, (E.learner i n).highestDelivered + 1 < (count + 1 : Nat) := by
        intro n
        by_contra hge
        exact never (learner_eventually
          (P := fun s => ((count + 1 : Nat) : Int) ≤ s.highestDelivered + 1)
          (fun s e htight h => by
            have := (htight.event_kept e).1
            omega) (n := n) (by omega))
      refine not_stuck keeps room timer hsettles ?_
      filter_upwards [ih (by omega), hlater] with n hdelivered hlast
      have := hbelow n
      omega

/-- What is delivered for a settled instance is what was settled. -/
theorem delivered_settled {C : Type} {content : AcceptMsg → C}
    (keeps : KeepsOk D (VotesKept owners cfg) (SystemState.Learned True owners) justified pick
      guard)
    (safe : ∀ σ m, justified σ m → SystemState.Safe content σ m) (distinct : D.IdsDistinct)
    (settles : E.Settles i m) {n : Nat} {call : DeliverCall}
    (delivered : call ∈ (E.learner i n).delivered) (iid : call.iid = m.iid) :
    ∃ m', content m' = content m ∧ m'.value = call.value ∧
      (owners → m'.proposerId = call.proposer) := by
  obtain ⟨Q, hquorum, hQ⟩ := settles
  have hstands : ∀ᶠ k in atTop, ∀ a ∈ Q, StandsBy (E.acceptor a k).log m :=
    (eventually_all_finset Q).mpr fun a ha => (hQ a ha).2
  have hkept : ∀ᶠ k in atTop, call ∈ (E.learner i k).delivered :=
    E.eventually (P := fun σ => call ∈ (σ.processes i).learner.delivered)
      (fun _ _ _ reach _ move h => (delivered_grow reach move i).subset h) delivered
  obtain ⟨k, hstands, hdelivered⟩ := (hstands.and hkept).exists
  have hok := system_ok keeps (E.reachable k)
  have hvotes := acceptors_votesSealed keeps.puts
    (fun _ _ _ h => ⟨h.keepsValue, h.keepsVote⟩) hok.acceptors
  have hpos := cfg.quorum_pos
  have hchosen : (E.state k).Chosen m :=
    ⟨Q, by omega, fun a ha => (hstands a ha).accepted⟩
  obtain ⟨a, ha⟩ : Q.Nonempty := Finset.card_pos.mp (by omega)
  have hsent := hok.applied a m (hstands a ha).accepted
  obtain ⟨m', hm', hchosen', hiid', -, hvalue', howner'⟩ :=
    hok.delivered_chosen distinct hdelivered
  exact ⟨m', hok.chosen_agree distinct hvotes (safe _) hm' hsent (hiid'.trans iid) hchosen' hchosen,
    hvalue', howner'⟩

/-- What has been delivered up to an instance is delivered for it. -/
theorem call_of_delivered {n : Nat} {iid : Int} (nonneg : 0 ≤ iid)
    (le : iid ≤ (E.learner i n).highestDelivered) :
    ∃ call ∈ (E.learner i n).delivered, call.iid = iid := by
  obtain ⟨events, hevents⟩ := learners_run (E.reachable n) i
  have horder : InOrder (E.learner i n) := by
    rw [learner, hevents]
    exact learnerRun_inOrder cfg events
  have hmem : iid ∈ (E.learner i n).delivered.reverse.map DeliverCall.iid := by
    rw [horder]
    exact List.mem_map.mpr ⟨iid.toNat, List.mem_range.mpr (by omega), by omega⟩
  obtain ⟨call, hcall, hiid⟩ := List.mem_map.mp hmem
  exact ⟨call, List.mem_reverse.mp hcall, hiid⟩

end Progress
end SystemRun

/-- A finite run to a state in which a timer finds nothing to ask for, for ever. -/
theorem exists_resting {cfg : Config} {D : Deployment cfg}
    {guard : SystemState D → Action D → Prop} {actions : List (Action D)} {σ : SystemState D}
    (meets : Meets act guard (systemStart D) actions)
    (run : actions.foldlM act (systemStart D) = some σ) {i : Fin D.processes}
    (ok : guard σ (.lsyncTimer i))
    (rests : (σ.processes i).learner.highestSeen ≤ (σ.processes i).learner.highestDelivered + 1) :
    ∃ E : SystemRun D guard,
      (∀ n u, (actions.take n).foldlM act (systemStart D) = some u → E.state n = u) ∧
      E.state actions.length = σ ∧ (∃ᶠ n in atTop, E.label n = some (.lsyncTimer i)) ∧
      ∀ m, (∀ a, StandsBy (σ.acceptors a).log m) → E.Settles i m := by
  obtain ⟨E, hstate, hend⟩ : ∃ E : SystemRun D guard,
      (∀ n u, (actions.take n).foldlM act (systemStart D) = some u → E.state n = u) ∧
      ∀ n, actions.length ≤ n → E.state n = σ ∧ E.label n = some (.lsyncTimer i) :=
    exists_looping (fun _ _ _ move => move) rfl meets run ok (lsyncTimer_idle rests)
  refine ⟨E, hstate, (hend _ le_rfl).1, ?_, fun m stands => ?_⟩
  · refine frequently_atTop.mpr fun n => ⟨max n actions.length, le_max_left _ _, ?_⟩
    exact (hend _ (le_max_right _ _)).2
  · refine ⟨Finset.univ, ?_, fun a _ => ⟨?_, ?_⟩⟩
    · have := cfg.nOfAcceptors_pos
      rw [Finset.card_univ, Fintype.card_fin, Config.quorum]
      omega
    · exact SystemRun.linked_of_still fun n hn =>
        (hend (n + 1) (by omega)).1.trans (hend n hn).1.symm
    · filter_upwards [eventually_ge_atTop actions.length] with n hn
      rw [SystemRun.acceptor, (hend n hn).1]
      exact stands a

/-! ### A learner that misses an instance -/

/-- The leader works on two instances at a time. -/
def pair : Config := { narrow with proposerPreexecWinSize := 1 }

abbrev pairFive : Deployment pair := fiveProcesses pair (by decide)

/-- What proposer 1 sends for instance 1. -/
def eightNext : AcceptMsg := ⟨1, 11, 1, 1, [8]⟩

/-- Process 3 hears of instance 1 only, until it asks for instance 0. -/
def missedRun : List (Action pairFive) :=
  openRound (0 : Fin 5) 20 1 ++ [.submit (1 : Fin 5) [7]] ++ toAll (acceptPacket sevenAccept) ++
    fromAll (1 : Fin 5) sevenAccept.learnPacket ++ [.submit (1 : Fin 5) [8]] ++
    toAll (acceptPacket eightNext) ++ fromAll (3 : Fin 5) eightNext.learnPacket ++
    [.lsyncTimer (3 : Fin 5)] ++ toAll (lsyncPacket [0]) ++
    fromAll (3 : Fin 5) sevenAccept.learnPacket

theorem missedRun_agrees :
    Meets act (Agrees False AcceptMsg.value) (systemStart pairFive) missedRun := by
  have hchecked : Meets act
      (fun σ action => AcceptorsMeet (VotesKept False pair) σ action ∧ NoOverflow σ action)
      (systemStart pairFive) missedRun := by
    decide +kernel
  exact hchecked.mono fun σ action h => ⟨h.1, h.2, unrivalled_of_three (by decide) _ σ action⟩

end LibFastPaxos
