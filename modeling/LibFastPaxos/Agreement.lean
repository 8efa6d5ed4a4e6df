import LibFastPaxos.AcceptorVotes
import LibFastPaxos.Attribution
import LibFastPaxos.BallotIdentity
import LibFastPaxos.Lib.Voting
import Mathlib.Data.Finset.Fin

/-!
Agreement. For each instance the accepts that were sent are the votes of an election:
those of the proposers are fast, and those of the leader follow what an acceptor reports.
With up to three acceptors a quorum is all of them. With more the value that the leader
picks has to be without rivals, as the highest one reported need not be the one chosen.
-/

namespace LibFastPaxos

open Transition History Voting

section System

variable {cfg : Config} {D : Deployment cfg} {C : Type}

/-- The line promises this ballot and reports a value to it. -/
def LogLine.reports (iid ballot : Int) : LogLine → Bool
  | .promised p => p.iid = iid && p.ballot = ballot && p.valueBallot ≠ -1
  | .acceptApplied _ | .anyvalApplied _ _ => false

/-- The acceptors that accepted `m` or that may do so still, for all that the leader knows:
they have reported no value to this ballot. -/
def SystemState.supporters (σ : SystemState D) (iid ballot : Int) (m : AcceptMsg) :
    Finset (Fin cfg.nOfAcceptors) :=
  Finset.univ.filter fun a => LogLine.acceptApplied m ∈ (σ.acceptors a).log ∨
    (σ.acceptors a).log.any (LogLine.reports iid ballot) = false

/-- With more than three acceptors, no quorum supports anything else than what is picked. -/
def Unrivalled (content : AcceptMsg → C) (σ : SystemState D) (r : ProposerRecord)
    (pi : PromiseInfo) : Prop :=
  3 < cfg.nOfAcceptors → ∀ m : AcceptMsg, m.iid = r.iid → m.ballot < r.ballot →
    content m ≠ content (acceptOf cfg r pi) →
    ((σ.supporters r.iid r.ballot m).card : Int) < cfg.quorum

/-- An acceptor keeps its values and its votes, and answers lsyncs as it voted. -/
structure VotesKept (owners : Prop) (cfg : Config) (env : DiskEnv) (s : AcceptorState)
    (op : AcceptorOp) : Prop where
  keepsValue : KeepsValue cfg env s op
  keepsVote : KeepsVote cfg env s op
  accurate : LsyncAccurate True owners cfg env s op

/-- The condition of a run that agrees on the content of its accepts. -/
structure Agrees (owners : Prop) (content : AcceptMsg → C) (σ : SystemState D)
    (action : Action D) : Prop where
  votes : AcceptorsMeet (VotesKept owners cfg) σ action
  fits : NoOverflow σ action
  unrivalled : PicksMeet (Unrivalled content) σ action

instance (owners : Prop) [Decidable owners] (env : DiskEnv) (s : AcceptorState)
    (op : AcceptorOp) : Decidable (VotesKept owners cfg env s op) :=
  decidable_of_iff (KeepsValue cfg env s op ∧ KeepsVote cfg env s op ∧
    LsyncAccurate True owners cfg env s op) ⟨fun h => ⟨h.1, h.2.1, h.2.2⟩, fun h => ⟨h.1, h.2, h.3⟩⟩

/-- Up to three acceptors nothing is asked of the values that the leader picks. -/
theorem unrivalled_of_three (small : cfg.nOfAcceptors ≤ 3) (content : AcceptMsg → C)
    (σ : SystemState D) (action : Action D) : PicksMeet (Unrivalled content) σ action := by
  cases action with
  | receive i msg => exact fun _ _ _ _ _ _ _ _ _ many => absurd small (by omega)
  | acceptor _ _ | lsyncTimer _ | phase1Timer _ | phase2Timer _ | timeout _ _ | submit _ _ =>
      trivial

/-- Why the leader may send the accept. -/
structure SystemState.Safe (content : AcceptMsg → C) (σ : SystemState D) (w : AcceptMsg) :
    Prop where
  recovers : ∃ a p m, Recovers σ w a p m ∧ content w = content m
  unrivalled : 3 < cfg.nOfAcceptors → ∀ m : AcceptMsg, m.iid = w.iid → m.ballot < w.ballot →
    content m ≠ content w → ((σ.supporters w.iid w.ballot m).card : Int) < cfg.quorum

section Sound

variable {cond : DiskEnv → AcceptorState → AcceptorOp → Prop}
  {learned : SystemState D → LearnMsg → Prop} {justified : SystemState D → AcceptMsg → Prop}
  {σ τ : SystemState D} {owners : Prop} {content : AcceptMsg → C}

theorem reports_iff {log : List LogLine} {iid ballot : Int} :
    log.any (LogLine.reports iid ballot) = true ↔
      ∃ p, LogLine.promised p ∈ log ∧ p.iid = iid ∧ p.ballot = ballot ∧ p.valueBallot ≠ -1 := by
  rw [List.any_eq_true]
  constructor
  · intro ⟨line, hline, hreports⟩
    cases line with
    | promised p =>
        simp only [LogLine.reports, Bool.and_eq_true, decide_eq_true_eq] at hreports
        exact ⟨p, hline, hreports.1.1, hreports.1.2, hreports.2⟩
    | acceptApplied _ | anyvalApplied _ _ => cases hreports
  · intro ⟨p, hp, hiid, hballot, hvalued⟩
    exact ⟨.promised p, hp, by simp [LogLine.reports, hiid, hballot, hvalued]⟩

theorem acceptors_votesSealed (puts : ∀ a, (D.disk a).PutsSucceed)
    (keeps : ∀ env s op, cond env s op → KeepsValue cfg env s op ∧ KeepsVote cfg env s op)
    (h : AcceptorsOk cond σ) (a : Fin cfg.nOfAcceptors) :
    VotesSealed cfg (σ.acceptors a).stored (σ.acceptors a).log :=
  votes_sealed (puts a) (keeps (D.disk a)) (h a)

/-- An accept below a ballot finds no new support once a value is reported to the ballot. -/
theorem supporters_anti (votes : ∀ a, Along AboveSeals (τ.acceptors a).log) (grows : σ.Grows τ)
    {iid ballot : Int} {m : AcceptMsg} (same : m.iid = iid) (below : m.ballot < ballot) :
    τ.supporters iid ballot m ⊆ σ.supporters iid ballot m := by
  intro a ha
  simp only [SystemState.supporters, Finset.mem_filter, Finset.mem_univ, true_and] at ha ⊢
  by_cases hreports : (σ.acceptors a).log.any (LogLine.reports iid ballot) = true
  · left
    obtain ⟨p, hp, hpiid, hpballot, hvalued⟩ := reports_iff.mp hreports
    have hp' := (grows.log a).subset hp
    have hm : LogLine.acceptApplied m ∈ (τ.acceptors a).log :=
      ha.resolve_right (by
        rw [reports_iff.mpr ⟨p, hp', hpiid, hpballot, hvalued⟩]
        simp)
    obtain ⟨newer, hnewer⟩ := grows.log a
    rw [← hnewer] at hm
    refine (List.mem_append.mp hm).resolve_left fun hnew => ?_
    -- an accept after the promise is not below its ballot
    obtain ⟨new, old, hsplit⟩ := List.append_of_mem hnew
    have habove := along_iff_split.mp (votes a) new (.acceptApplied m)
      (old ++ (σ.acceptors a).log) (by rw [← hnewer, hsplit]; simp)
    have := habove m p rfl (List.mem_append_right _ hp) (hpiid.trans same.symm) hvalued
    omega
  · exact .inr (by simpa using hreports)

theorem SystemState.Safe.mono {w : AcceptMsg} (h : σ.Safe content w)
    (votes : ∀ a, Along AboveSeals (τ.acceptors a).log) (grows : σ.Grows τ) :
    τ.Safe content w := by
  constructor
  · obtain ⟨a, p, m, hrecovers, hcontent⟩ := h.recovers
    exact ⟨a, p, m, hrecovers.mono grows, hcontent⟩
  · intro many m hiid hballot hcontent
    have hcard := Finset.card_le_card (supporters_anti votes grows hiid hballot)
    have := h.unrivalled many m hiid hballot hcontent
    omega

/-! ### The election of an instance -/

/-- The accepts sent for the instance. -/
abbrev SystemState.Vote (σ : SystemState D) (iid : Int) : Type :=
  { m : AcceptMsg // Sends σ.toAcceptors m ∧ m.iid = iid }

theorem SystemOk.accept_wellFormed (h : SystemOk cond learned justified σ) {m : AcceptMsg}
    (sent : Sends σ.toAcceptors m) : m.WellFormed := by
  obtain ⟨packet, hpacket, hdata⟩ := sent
  have hwf := h.wellFormed hpacket
  rw [hdata] at hwf
  exact hwf

def SystemOk.election (h : SystemOk cond learned justified σ) (distinct : D.IdsDistinct)
    (votes : ∀ a, VotesSealed cfg (σ.acceptors a).stored (σ.acceptors a).log)
    (content : AcceptMsg → C) (iid : Int) :
    Election (Fin cfg.nOfAcceptors) (σ.Vote iid) Nat C where
  accepted := fun a m => LogLine.acceptApplied m.1 ∈ (σ.acceptors a).log
  ballot := fun m => m.1.ballot.toNat
  content := fun m => content m.1
  fast := fun m => m.1.ballot < cfg.minBallot
  fast_below := by
    intro m m' hfast hnot
    have := (h.accept_wellFormed m.2.1).ballot_nonneg
    have := (h.accept_wellFormed m'.2.1).ballot_nonneg
    omega
  one_fast := by
    intro a m m' hm hm' hfast hfast'
    exact Subtype.ext ((votes a).one_fast m.1 m'.1 hm hm' (m.2.2.trans m'.2.2.symm) hfast hfast')
  one_vote := by
    intro m m' _ _ hballot
    have := (h.accept_wellFormed m.2.1).ballot_nonneg
    have := (h.accept_wellFormed m'.2.1).ballot_nonneg
    exact Subtype.ext (h.one_accept distinct m.2.1 m'.2.1 (m.2.2.trans m'.2.2.symm) (by omega))

/-- Only the leader sends at its ballots, and it sends what is safe. -/
theorem SystemOk.safe (h : SystemOk cond learned justified σ)
    (safe : ∀ m, justified σ m → σ.Safe content m) {m : AcceptMsg}
    (sent : Sends σ.toAcceptors m) (coordinated : ¬ m.ballot < cfg.minBallot) :
    σ.Safe content m := by
  cases h.sender sent with
  | inl hp =>
      obtain ⟨i, s, id, -, hid, hsound, hm⟩ := hp
      have hballot := (hsound.own m hm).ballot_eq
      have hrange := D.installed_range i id hid
      simp only [Config.minBallot] at coordinated
      omega
  | inr hl =>
      obtain ⟨i, l, -, -, hsound, hm⟩ := hl
      exact safe m (hsound.justified m hm)

theorem SystemOk.follows (h : SystemOk cond learned justified σ) (distinct : D.IdsDistinct)
    (votes : ∀ a, VotesSealed cfg (σ.acceptors a).stored (σ.acceptors a).log)
    (safe : ∀ m, justified σ m → σ.Safe content m) (iid : Int) (w : σ.Vote iid)
    (coordinated : ¬ (h.election distinct votes content iid).fast w) :
    ∃ a u, (h.election distinct votes content iid).Follows w a u := by
  obtain ⟨a, p, m, hrecovers, hcontent⟩ := (h.safe safe w.2.1 coordinated).recovers
  have hm := h.applied a m hrecovers.accepted
  have hsealed := (votes a).sealed p hrecovers.promised hrecovers.valued
  have hnonneg := (h.accept_wellFormed hm).ballot_nonneg
  have hballot := hrecovers.ballot_eq
  have hpballot := hrecovers.promise_ballot
  have hbelow := hsealed.below
  refine ⟨a, ⟨m, hm, hrecovers.iid_eq.trans w.2.2⟩, hrecovers.accepted, hcontent, ?_, ?_⟩
  · change m.ballot.toNat < w.1.ballot.toNat
    omega
  · intro v hv hlt
    change v.1.ballot.toNat < w.1.ballot.toNat at hlt
    change v.1.ballot.toNat ≤ m.ballot.toNat
    have := hsealed.highest v.1 hv
      (v.2.2.trans (w.2.2.symm.trans hrecovers.promise_iid.symm)) (by omega)
    omega

/-- A quorum of acceptors accepted the accept. -/
def SystemState.Chosen (σ : SystemState D) (m : AcceptMsg) : Prop :=
  ∃ Q : Finset (Fin cfg.nOfAcceptors), cfg.quorum.toNat ≤ Q.card ∧
    ∀ a ∈ Q, LogLine.acceptApplied m ∈ (σ.acceptors a).log

/-- The chosen accepts of an instance agree. -/
theorem SystemOk.chosen_agree (h : SystemOk cond learned justified σ) (distinct : D.IdsDistinct)
    (votes : ∀ a, VotesSealed cfg (σ.acceptors a).stored (σ.acceptors a).log)
    (safe : ∀ m, justified σ m → σ.Safe content m) {m m' : AcceptMsg}
    (sent : Sends σ.toAcceptors m) (sent' : Sends σ.toAcceptors m') (iid : m.iid = m'.iid)
    (chosen : σ.Chosen m) (chosen' : σ.Chosen m') : content m = content m' := by
  let E := h.election distinct votes content m'.iid
  have hquorum := cfg.quorum_pos
  have majority : Fintype.card (Fin cfg.nOfAcceptors) < 2 * cfg.quorum.toNat := by
    have := cfg.two_quorums_meet
    rw [Fintype.card_fin]
    omega
  have hsafe : ∀ v w : σ.Vote m'.iid, E.Chosen cfg.quorum.toNat v → ¬ E.fast w →
      E.ballot v < E.ballot w → E.content v = E.content w := by
    intro v w ⟨Q, hQ, hall⟩ coordinated hlt
    by_cases many : 3 < cfg.nOfAcceptors
    · by_contra hne
      have hnonneg := (h.accept_wellFormed v.2.1).ballot_nonneg
      have hlt : v.1.ballot.toNat < w.1.ballot.toNat := hlt
      have hrival := (h.safe safe w.2.1 coordinated).unrivalled many v.1
        (v.2.2.trans w.2.2.symm) (by omega) hne
      have hsub : Q ⊆ σ.supporters w.1.iid w.1.ballot v.1 := by
        intro a ha
        simp only [SystemState.supporters, Finset.mem_filter, Finset.mem_univ, true_and]
        exact .inl (hall a ha)
      have := Finset.card_le_card hsub
      omega
    · -- a quorum is all acceptors
      have hall' := cfg.quorum_eq_nOfAcceptors_iff.mpr (by omega)
      have hcard := Finset.card_le_univ Q
      rw [Fintype.card_fin] at hcard
      have huniv : Q = Finset.univ :=
        Finset.eq_univ_of_card Q (by rw [Fintype.card_fin]; omega)
      have hevery : ∀ a, E.accepted a v := fun a => hall a (huniv ▸ Finset.mem_univ a)
      exact Election.content_of_unanimous (h.follows distinct votes safe m'.iid) hevery w
        coordinated (Nat.le_of_lt hlt)
  exact Election.agreement majority hsafe (v := ⟨m, sent, iid⟩) (w := ⟨m', sent', rfl⟩) chosen
    chosen'

/-- What a learner delivers was chosen. -/
theorem SystemOk.delivered_chosen
    (h : SystemOk cond (SystemState.Learned True owners) justified σ) (distinct : D.IdsDistinct)
    {i : Fin D.processes} {d : DeliverCall} (delivered : d ∈ (σ.processes i).learner.delivered) :
    ∃ m, Sends σ.toAcceptors m ∧ σ.Chosen m ∧ m.iid = d.iid ∧ m.valueSize = d.size ∧
      m.value = d.value ∧ (owners → m.proposerId = d.proposer) := by
  obtain ⟨m, hm, hiid, hsize, hvalue, -, hballot, howner⟩ := h.delivered delivered
  obtain ⟨acceptors, hnodup, hall, hquorum⟩ :=
    ((h.processes i).learner.decided d delivered).quorum
  have hrange : ∀ a ∈ acceptors.toFinset, a < cfg.nOfAcceptors :=
    fun a ha => (hall a (List.mem_toFinset.mp ha)).1
  refine ⟨m, hm, ⟨Finset.attachFin acceptors.toFinset hrange, ?_, ?_⟩, hiid, hsize, hvalue, howner⟩
  · rw [Finset.card_attachFin, List.toFinset_card_of_nodup hnodup]
    omega
  · intro a ha
    rw [Finset.mem_attachFin, List.mem_toFinset] at ha
    obtain ⟨-, l, ⟨b, m', hm', hb, hliid, -, -, hlballot, -⟩, hla, hldiid, hldballot⟩ := hall a ha
    obtain rfl : a = b := Fin.ext (by omega)
    have hsent := h.applied a m' hm'
    have heq : m' = m := h.one_accept distinct hsent hm
      (hliid.symm.trans (hldiid.trans hiid.symm))
      ((hlballot trivial).symm.trans (hldballot.trans (hballot trivial).symm))
    exact heq ▸ hm'

theorem SystemOk.safe_sent (puts : ∀ a, (D.disk a).PutsSucceed)
    (h : SystemOk cond learned justified σ) {k : Nat} {r : ProposerRecord} {pi : PromiseInfo}
    (sound : r.Sound cfg σ.Heard k) (ready : r.status = .p1Ready)
    (value : phase2Value cfg r = some pi) (unrivalled : Unrivalled content σ r pi)
    (same : ∀ a p m, Recovers σ (acceptOf cfg r pi) a p m → pi.valueBallot = m.ballot →
      content (acceptOf cfg r pi) = content m) : σ.Safe content (acceptOf cfg r pi) := by
  obtain ⟨a, p, m, recovers, hballot⟩ := h.recovers puts sound ready value
  exact ⟨⟨a, p, m, recovers, same a p m recovers hballot⟩, unrivalled⟩

end Sound

theorem agrees_keepsOk (puts : ∀ a, (D.disk a).PutsSucceed) :
    KeepsOk D (VotesKept False cfg) (SystemState.Learned True False)
      (SystemState.Safe AcceptMsg.value) (Unrivalled AcceptMsg.value)
      (Agrees False AcceptMsg.value) := by
  refine ⟨puts, fun _ _ h => h.votes, fun _ _ h => h.fits, fun _ _ h => h.unrivalled, ?_, ?_, ?_,
    ?_⟩
  · exact fun σ τ l grows h => h.mono grows
  · exact fun σ a msg l h sent data => h.learned_sent puts (fun _ _ _ h => h.accurate) sent data
  · intro σ τ m acceptors grows h
    exact h.mono (fun a => (acceptors_votesSealed puts
      (fun _ _ _ h => ⟨h.keepsValue, h.keepsVote⟩) acceptors a).ordered) grows
  · exact fun σ k r pi h sound ready value unrivalled =>
      h.safe_sent puts sound ready value unrivalled fun _ _ _ recovers _ => recovers.value_eq

/-- What learners deliver for one instance has one value. -/
theorem SystemOk.delivered_agree {σ : SystemState D} (puts : ∀ a, (D.disk a).PutsSucceed)
    (distinct : D.IdsDistinct)
    (h : SystemOk (VotesKept False cfg) (SystemState.Learned True False)
      (SystemState.Safe AcceptMsg.value) σ) {i j : Fin D.processes} {d d' : DeliverCall}
    (delivered : d ∈ (σ.processes i).learner.delivered)
    (delivered' : d' ∈ (σ.processes j).learner.delivered) (iid : d.iid = d'.iid) :
    d.value = d'.value := by
  have hvotes := acceptors_votesSealed puts
    (fun _ _ _ h => ⟨h.keepsValue, h.keepsVote⟩) h.acceptors
  obtain ⟨m, hm, hchosen, hiid, -, hvalue, -⟩ := h.delivered_chosen distinct delivered
  obtain ⟨m', hm', hchosen', hiid', -, hvalue', -⟩ := h.delivered_chosen distinct delivered'
  have hagree := h.chosen_agree distinct hvotes (fun _ h => h) hm hm'
    (hiid.trans (iid.trans hiid'.symm)) hchosen hchosen'
  rw [← hvalue, ← hvalue']
  exact hagree

end System

theorem fiveProcesses_idsDistinct (cfg : Config) (room : 3 ≤ cfg.maxProposers) :
    (fiveProcesses cfg room).IdsDistinct := by
  -- the ids are the places
  have place : ∀ (i : Fin 5) id, ((fiveProcesses cfg room).role i).installedId? = some id →
      id = (i : Nat) := by
    intro i id hid
    match i with
    | 0 | 1 | 2 =>
        cases hid
        rfl
    | 3 | 4 => cases hid
  intro i j id hi hj
  have := place i id hi
  have := place j id hj
  exact Fin.ext (by omega)

/-- What proposer 2 sends for instance 0. -/
def eightAccept : AcceptMsg := ⟨0, 12, 1, 2, [8]⟩

end LibFastPaxos
