import LibFastPaxos.SystemInvariant

/-!
Values and their proposers. Promises do not carry the proposer id, so the leader takes
it from the ballot of the value, which is right for the fixed ballot of a proposer. At a
ballot of the leader it is what the leader's ballots leave modulo MAX_PROPOSERS, and the
id gets lost when a value is recovered for the second time.
-/

namespace LibFastPaxos

open Transition

section System

variable {cfg : Config} {D : Deployment cfg}

/-- The learn repeats an accept of an acceptor. -/
def SystemState.Learned (ballots owners : Prop) (σ : SystemState D) (l : LearnMsg) : Prop :=
  ∃ a : Fin cfg.nOfAcceptors, l.Backed ballots owners (σ.acceptors a).log (a : Nat)

/-- The proposer whose id the accept carries sent an accept with that value for the instance. -/
def SystemState.OwnSubmission (σ : SystemState D) (m : AcceptMsg) : Prop :=
  ∃ i s m₀, (D.role i).installedId? = some m.proposerId ∧ (σ.processes i).proposer = some s ∧
    Sends s.sent m₀ ∧ m₀.iid = m.iid ∧ m₀.valueSize = m.valueSize ∧ m₀.value = m.value

/-- A value accepted at a ballot of the leader comes from the proposer that the leader
takes that ballot for. -/
def OwnerKept (σ : SystemState D) (r : ProposerRecord) (pi : PromiseInfo) : Prop :=
  cfg.minBallot ≤ pi.valueBallot → ∀ m, Sends σ.toAcceptors m → m.iid = r.iid →
    m.ballot = pi.valueBallot → m.proposerId = cfg.valueOwner pi.valueBallot

/-- The condition of a run that attributes its values. -/
structure Attributes (σ : SystemState D) (action : Action D) : Prop where
  accurate : AcceptorsMeet (LsyncAccurate False True cfg) σ action
  fits : NoOverflow σ action
  owners : PicksMeet OwnerKept σ action

instance (σ : SystemState D) (r : ProposerRecord) (pi : PromiseInfo) :
    Decidable (OwnerKept σ r pi) :=
  inferInstanceAs (Decidable (_ → ∀ m, Sends σ.toAcceptors m → _))

instance (σ : SystemState D) (action : Action D) : Decidable (Attributes σ action) :=
  decidable_of_iff (AcceptorsMeet (LsyncAccurate False True cfg) σ action ∧ NoOverflow σ action ∧
    PicksMeet OwnerKept σ action) ⟨fun h => ⟨h.1, h.2.1, h.2.2⟩, fun h => ⟨h.1, h.2, h.3⟩⟩

section Sound

variable {cond : DiskEnv → AcceptorState → AcceptorOp → Prop}
  {learned : SystemState D → LearnMsg → Prop} {justified : SystemState D → AcceptMsg → Prop}
  {σ τ : SystemState D} {ballots owners : Prop}

theorem SystemState.Learned.mono {l : LearnMsg} (h : σ.Learned ballots owners l)
    (grows : σ.Grows τ) : τ.Learned ballots owners l := by
  obtain ⟨a, ha⟩ := h
  exact ⟨a, ha.mono (grows.log a).subset⟩

/-- What an acceptor sends as a learn is one, as long as its lsyncs are accurate. -/
theorem SystemOk.learned_sent (puts : ∀ a, (D.disk a).PutsSucceed)
    (accurate : ∀ env s op, cond env s op → LsyncAccurate ballots owners cfg env s op)
    (h : SystemOk cond learned justified σ) {a : Fin cfg.nOfAcceptors} {msg : PaxosMsg}
    {l : LearnMsg} (sent : msg ∈ (σ.acceptors a).sent) (data : msg.data = .learn l) :
    σ.Learned ballots owners l := by
  have hanswers := (acceptor_answerable (puts a) (accurate (D.disk a)) (h.acceptors a)).answers
  refine ⟨a, ?_⟩
  have hbacked := hanswers msg sent l data
  rw [show (σ.acceptors a).out.acceptorId = (a : Nat) from h.acceptorId a] at hbacked
  exact hbacked

theorem SystemState.OwnSubmission.mono {m : AcceptMsg} (h : σ.OwnSubmission m)
    (grows : σ.Grows τ) : τ.OwnSubmission m := by
  obtain ⟨i, s, m₀, hid, hs, hsent, rest⟩ := h
  obtain ⟨t, ht, hsub⟩ := (grows.processes i).proposer s hs
  exact ⟨i, t, m₀, hid, ht, hsent.mono (proposer_sent_subset hsub), rest⟩

/-- The fixed ballot of a proposer gives its id back. -/
theorem valueOwner_fixedBallot {id : Int} (nonneg : 0 ≤ id) (lt : id < cfg.maxProposers) :
    cfg.valueOwner (cfg.maxProposers + id) = id := by
  have hpos := cfg.maxProposers_pos
  rw [Config.valueOwner, Int.tmod_eq_emod_of_nonneg (by omega), Int.add_emod_left]
  exact Int.emod_eq_of_lt nonneg lt

/-- Below the ballots of the leader an accept carries the id that its ballot gives. -/
theorem SystemOk.fast_owner (h : SystemOk cond learned justified σ) {m : AcceptMsg}
    (sent : Sends σ.toAcceptors m) (fast : m.ballot < cfg.minBallot) :
    m.proposerId = cfg.valueOwner m.ballot := by
  cases h.sender sent with
  | inl hp =>
      obtain ⟨i, s, id, -, hid, hsound, hm⟩ := hp
      obtain ⟨hnonneg, hlt⟩ := D.installed_range i id hid
      rw [(hsound.own m hm).ballot_eq, valueOwner_fixedBallot hnonneg hlt]
      exact (hsound.own m hm).proposerId_eq
  | inr hl =>
      obtain ⟨i, l, -, -, hsound, hm⟩ := hl
      have := hsound.ballot_low m hm
      omega

/-- Every accept, as long as those of the leader are known to be. -/
theorem SystemOk.ownSubmission (h : SystemOk cond learned SystemState.OwnSubmission σ)
    {m : AcceptMsg} (sent : Sends σ.toAcceptors m) : σ.OwnSubmission m := by
  cases h.sender sent with
  | inl hp =>
      obtain ⟨i, s, id, hs, hid, hsound, hm⟩ := hp
      refine ⟨i, s, m, ?_, hs, hm, rfl, rfl, rfl⟩
      rw [(hsound.own m hm).proposerId_eq]
      exact hid
  | inr hl =>
      obtain ⟨i, l, -, -, hsound, hm⟩ := hl
      exact hsound.justified m hm

/-- The accept that the leader sends for a recovered value carries the id of its proposer. -/
theorem SystemOk.recovered_owner (h : SystemOk cond learned justified σ) {r : ProposerRecord}
    {pi : PromiseInfo} {a : Fin cfg.nOfAcceptors} {p : PromiseMsg} {m : AcceptMsg}
    (recovers : Recovers σ (acceptOf cfg r pi) a p m) (ballot : pi.valueBallot = m.ballot)
    (kept : OwnerKept σ r pi) : (acceptOf cfg r pi).proposerId = m.proposerId := by
  have hsent := h.applied a m recovers.accepted
  change cfg.valueOwner pi.valueBallot = m.proposerId
  by_cases fast : m.ballot < cfg.minBallot
  · rw [h.fast_owner hsent fast, ballot]
  · exact (kept (by omega) m hsent recovers.iid_eq ballot.symm).symm

theorem SystemOk.recovered_submission (puts : ∀ a, (D.disk a).PutsSucceed)
    (h : SystemOk cond learned SystemState.OwnSubmission σ) {k : Nat} {r : ProposerRecord}
    {pi : PromiseInfo} (sound : r.Sound cfg σ.Heard k) (ready : r.status = .p1Ready)
    (value : phase2Value cfg r = some pi) (kept : OwnerKept σ r pi) :
    σ.OwnSubmission (acceptOf cfg r pi) := by
  obtain ⟨a, p, m, recovers, hballot⟩ := h.recovers puts sound ready value
  obtain ⟨i, s, m₀, hid, hs, hsent, hiid, hsize, hvalue⟩ :=
    h.ownSubmission (h.applied a m recovers.accepted)
  refine ⟨i, s, m₀, ?_, hs, hsent, hiid.trans recovers.iid_eq,
    hsize.trans recovers.valueSize_eq.symm, hvalue.trans recovers.value_eq.symm⟩
  rw [h.recovered_owner recovers hballot kept]
  exact hid

/-- What a learner delivers is the value of an accept that an acceptor applied. -/
theorem SystemOk.delivered (h : SystemOk cond (SystemState.Learned ballots owners) justified σ)
    {i : Fin D.processes} {d : DeliverCall} (delivered : d ∈ (σ.processes i).learner.delivered) :
    ∃ m, Sends σ.toAcceptors m ∧ m.iid = d.iid ∧ m.valueSize = d.size ∧ m.value = d.value ∧
      d.size = d.value.length ∧ (ballots → m.ballot = d.ballot) ∧
      (owners → m.proposerId = d.proposer) := by
  obtain ⟨l, ⟨a, m, hm, -, hiid, hsize, hvalue, hballot, howner⟩, hdiid, hdballot, hdowner, hdsize,
    hdvalue⟩ := ((h.processes i).learner.decided d delivered).learned
  have hsent := h.applied a m hm
  obtain ⟨packet, hpacket, hdata⟩ := hsent
  have hwf : m.WellFormed := by
    have := h.wellFormed hpacket
    rw [hdata] at this
    exact this
  have hmvalue : m.value = d.value := by
    rw [hdvalue, hvalue, hsize]
    exact (memcpy_of_length hwf.valueSize_eq).symm
  refine ⟨m, ⟨packet, hpacket, hdata⟩, hiid.symm.trans hdiid, hsize.symm.trans hdsize, hmvalue,
    ?_, ?_, ?_⟩
  · rw [← hdsize, hsize, ← hmvalue]
    exact hwf.valueSize_eq
  · exact fun asked => (hballot asked).symm.trans hdballot
  · exact fun asked => (howner asked).symm.trans hdowner

end Sound

theorem attributes_keepsOk (puts : ∀ a, (D.disk a).PutsSucceed) :
    KeepsOk D (LsyncAccurate False True cfg) (SystemState.Learned False True)
      SystemState.OwnSubmission OwnerKept Attributes := by
  refine ⟨puts, fun _ _ h => h.accurate, fun _ _ h => h.fits, fun _ _ h => h.owners, ?_, ?_, ?_, ?_⟩
  · exact fun σ τ l grows h => h.mono grows
  · exact fun σ a msg l h sent data => h.learned_sent puts (fun _ _ _ h => h) sent data
  · exact fun σ τ m _ grows h => h.mono grows
  · exact fun σ k r pi h sound ready value kept =>
      h.recovered_submission puts sound ready value kept

/-- A delivered value was submitted by the proposer that is delivered with it. -/
theorem delivered_value_submitted (puts : ∀ a, (D.disk a).PutsSucceed) {σ : SystemState D}
    (h : Reachable (system D) Attributes σ) {i : Fin D.processes} {d : DeliverCall}
    (delivered : d ∈ (σ.processes i).learner.delivered) :
    d.size = d.value.length ∧ ∃ j s, (D.role j).installedId? = some d.proposer ∧
      (σ.processes j).proposer = some s ∧ ProposerEffect.submit d.value ∈ s.trace := by
  have hok := system_ok (attributes_keepsOk puts) h
  obtain ⟨m, hm, -, -, hvalue, hsize, -, howner⟩ := hok.delivered delivered
  obtain ⟨j, s, m₀, hid, hs, hsent, -, -, hvalue₀⟩ := hok.ownSubmission hm
  rw [howner trivial] at hid
  refine ⟨hsize, j, s, hid, hs, ?_⟩
  obtain ⟨id, -, hsound⟩ := proposer_sound (fun id hid => (D.installed_range j id hid).1)
    ((hok.processes j).proposer s hs)
  rw [← hvalue, ← hvalue₀]
  exact hsound.submitted m₀ hsent

/-! ### Runs -/

/-- All acceptors handle the message. -/
def toAll (packet : PaxosMsg) : List (Action D) :=
  (List.finRange cfg.nOfAcceptors).map fun a => .acceptor a packet

/-- The process receives the message of every acceptor. -/
def fromAll (i : Fin D.processes) (packet : Int → PaxosMsg) : List (Action D) :=
  (List.finRange cfg.nOfAcceptors).map fun a => .receive i (packet (a : Nat))

def promisePacket (data : List PromiseMsg) (acceptorId : Int) : PaxosMsg where
  size := sizeofPromiseBatchMsg + (data.map fun p => sizeofPromiseMsg + p.valueSize).sum
  data := .promise { acceptorId := acceptorId, count := data.length, data := data }

/-- Phase 1 of the instances up to `last`, with no value found. -/
def openRound (leader : Fin D.processes) (ballot last : Int) : List (Action D) :=
  toAll (preparePacket ((idsFromTo 0 last).map fun i => ⟨i, ballot⟩)) ++
    fromAll leader (promisePacket ((idsFromTo 0 last).map fun i => ⟨i, ballot, -1, 0, []⟩)) ++
    toAll (anyvalPacket ballot (idsFromTo 0 last))

/-- The phase-2 timer makes the leader recover the accept at a new ballot. -/
def recovery (leader : Fin D.processes) (ballot : Int) (m : AcceptMsg) : List (Action D) :=
  [.phase2Timer leader] ++ toAll (preparePacket [⟨m.iid, ballot⟩]) ++
    fromAll leader (promisePacket [⟨m.iid, ballot, m.ballot, m.valueSize, m.value⟩]) ++
    toAll (acceptPacket
      { m with ballot := ballot, proposerId := cfg.valueOwner m.ballot })

end System

/-- The leader, two other proposers and two learners. -/
def fiveProcesses (cfg : Config) (room : 3 ≤ cfg.maxProposers) : Deployment cfg where
  disk := fun _ => quietDisk
  processes := 5
  role := fun i => match i with
    | 0 => .proposer 0 true
    | 1 => .proposer 1 false
    | 2 => .proposer 2 false
    | 3 | 4 => .learner
  installed_range := by
    intro i id hid
    match i with
    | 0 | 1 | 2 =>
        cases hid
        omega
    | 3 | 4 => cases hid
  one_leader := by decide

/-- The leader works on one instance at a time. -/
def narrow : Config :=
  { Config.shipped with proposerPreexecWinSize := 0, proposerArraySize := ⟨8, 3, rfl⟩ }

abbrev narrowFive : Deployment narrow := fiveProcesses narrow (by decide)

abbrev shippedFive : Deployment .shipped := fiveProcesses .shipped (by decide)

/-! Processes and acceptors are named by their numbers. -/

instance five_neZero : NeZero 5 := ⟨by decide⟩

instance three_neZero : NeZero 3 := ⟨by decide⟩

/-- What proposer 1 sends for instance 0. -/
def sevenAccept : AcceptMsg := ⟨0, 11, 1, 1, [7]⟩

/-- The value of proposer 1 is decided in a fast round. -/
def fastRun : List (Action narrowFive) :=
  openRound (0 : Fin 5) 20 0 ++ [.submit (1 : Fin 5) [7]] ++ toAll (acceptPacket sevenAccept) ++
    fromAll (3 : Fin 5) sevenAccept.learnPacket ++ fromAll (4 : Fin 5) sevenAccept.learnPacket

theorem fastRun_attributes : Meets act Attributes (systemStart narrowFive) fastRun := by
  decide +kernel

theorem delivered_value_submitted_fastRun :
    ∃ σ, fastRun.foldlM act (systemStart narrowFive) = some σ ∧
      ∃ j s, (narrowFive.role j).installedId? = some 1 ∧ (σ.processes j).proposer = some s ∧
        ProposerEffect.submit [7] ∈ s.trace := by
  have hrun : ∃ σ, fastRun.foldlM act (systemStart narrowFive) = some σ ∧
      (⟨[7], 1, 0, 11, 1⟩ : DeliverCall) ∈ (σ.processes (3 : Fin 5)).learner.delivered := by
    decide +kernel
  obtain ⟨σ, run, delivered⟩ := hrun
  have hreach : Reachable (system narrowFive) Attributes σ :=
    Reachable.run (fun _ _ _ move => move) (.init rfl) fastRun_attributes run
  exact ⟨σ, run, (delivered_value_submitted (fun _ => quietDisk_putsSucceed) hreach delivered).2⟩

/-- The value of proposer 1 is recovered at ballots 30 and 40 before a learner hears of it. -/
def recoveredTwice : List (Action shippedFive) :=
  openRound (0 : Fin 5) 20 50 ++ [.submit (1 : Fin 5) [7]] ++ toAll (acceptPacket sevenAccept) ++
    recovery (0 : Fin 5) 30 sevenAccept ++
    recovery (0 : Fin 5) 40 { sevenAccept with ballot := 30 } ++
    fromAll (3 : Fin 5) { sevenAccept with ballot := 40, proposerId := 0 }.learnPacket

theorem recoveredTwice_misattributes :
    ∃ σ, Reachable (system shippedFive) anyStep σ ∧ ∃ i d,
      d ∈ (σ.processes i).learner.delivered ∧
      ¬ ∃ j s, (shippedFive.role j).installedId? = some d.proposer ∧
        (σ.processes j).proposer = some s ∧ ProposerEffect.submit d.value ∈ s.trace := by
  have hrun : ∃ σ, recoveredTwice.foldlM act (systemStart shippedFive) = some σ ∧
      (⟨[7], 1, 0, 40, 0⟩ : DeliverCall) ∈ (σ.processes (3 : Fin 5)).learner.delivered ∧
      ∀ j : Fin 5, (shippedFive.role j).installedId? = some 0 →
        ∀ s, (σ.processes j).proposer = some s → ProposerEffect.submit [7] ∉ s.trace := by
    decide +kernel
  obtain ⟨σ, run, delivered, silent⟩ := hrun
  have hreach : Reachable (system shippedFive) anyStep σ :=
    Reachable.run (fun _ _ _ move => move) (.init rfl)
      (Meets.of_forall (fun _ _ => trivial) _ _) run
  exact ⟨σ, hreach, (3 : Fin 5), _, delivered, fun ⟨j, s, hid, hs, hmem⟩ => silent j hid s hs hmem⟩

end LibFastPaxos
