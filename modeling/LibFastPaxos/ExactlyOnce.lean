import LibFastPaxos.Agreement
import LibFastPaxos.ProposerCalls

/-!
Exactly-once submission. The client is woken by the proposer id of what is delivered and
sends its value again when the id is somebody else's, so each call is delivered once as
long as the chosen accepts of an instance agree on the proposer id and carry the id of
the proposer that submitted the value.
-/

namespace LibFastPaxos

open Transition

section System

variable {cfg : Config} {D : Deployment cfg}

/-- The deliver call hands out what the call of process `i` submitted: the value, for an
instance for which the call sent it, and no other process with the id that is delivered
sent that value for the instance. -/
def SystemState.Delivers (σ : SystemState D) (i : Fin D.processes) (c : Call) (d : DeliverCall) :
    Prop :=
  d.iid ∈ c.instances ∧ d.value = c.value ∧ ∀ j, (D.role j).installedId? = some d.proposer →
    ∀ s, (σ.processes j).proposer = some s → ∀ m, Sends s.sent m → m.iid = d.iid →
      m.value = d.value → j = i

/-- The condition of a run that delivers each call once. -/
structure SubmitsOnce (σ : SystemState D) (action : Action D) : Prop
    extends Agrees True AcceptMsg.proposerId σ action where
  owners : PicksMeet OwnerKept σ action

instance (σ : SystemState D) (i : Fin D.processes) (c : Call) (d : DeliverCall) :
    Decidable (σ.Delivers i c d) :=
  inferInstanceAs (Decidable (_ ∧ _ ∧ ∀ j, (D.role j).installedId? = some d.proposer → _))

/-- Why the leader may send the accept. -/
structure SystemState.Faithful (σ : SystemState D) (m : AcceptMsg) : Prop where
  safe : σ.Safe AcceptMsg.proposerId m
  submission : σ.OwnSubmission m

theorem PicksMeet.and {pick pick' : SystemState D → ProposerRecord → PromiseInfo → Prop}
    {σ : SystemState D} {action : Action D} (h : PicksMeet pick σ action)
    (h' : PicksMeet pick' σ action) :
    PicksMeet (fun σ r pi => pick σ r pi ∧ pick' σ r pi) σ action := by
  cases action with
  | receive i msg =>
      intro l hl batch data k hk ready pi value
      exact ⟨h l hl batch data k hk ready pi value, h' l hl batch data k hk ready pi value⟩
  | acceptor _ _ | lsyncTimer _ | phase1Timer _ | phase2Timer _ | timeout _ _ | submit _ _ =>
      trivial

theorem SystemOk.weaken {cond : DiskEnv → AcceptorState → AcceptorOp → Prop}
    {learned : SystemState D → LearnMsg → Prop}
    {justified justified' : SystemState D → AcceptMsg → Prop} {σ : SystemState D}
    (h : SystemOk cond learned justified σ) (weaker : ∀ m, justified σ m → justified' σ m) :
    SystemOk cond learned justified' σ :=
  ⟨h.acceptors, h.acceptorId, h.applied,
    fun i => (h.processes i).mono (fun _ hl => hl) (fun _ _ hp => hp) weaker⟩

theorem submitsOnce_keepsOk (puts : ∀ a, (D.disk a).PutsSucceed) :
    KeepsOk D (VotesKept True cfg) (SystemState.Learned True True) SystemState.Faithful
      (fun σ r pi => Unrivalled AcceptMsg.proposerId σ r pi ∧ OwnerKept σ r pi) SubmitsOnce := by
  refine ⟨puts, fun _ _ h => h.votes, fun _ _ h => h.fits, fun _ _ h => h.unrivalled.and h.owners,
    ?_, ?_, ?_, ?_⟩
  · exact fun σ τ l grows h => h.mono grows
  · exact fun σ a msg l h sent data => h.learned_sent puts (fun _ _ _ h => h.accurate) sent data
  · intro σ τ m acceptors grows h
    have hordered := fun a => (acceptors_votesSealed puts
      (fun _ _ _ h => ⟨h.keepsValue, h.keepsVote⟩) acceptors a).ordered
    exact ⟨h.safe.mono hordered grows, h.submission.mono grows⟩
  · intro σ k r pi h sound ready value ⟨unrivalled, kept⟩
    constructor
    · exact h.safe_sent puts sound ready value unrivalled
        fun _ _ _ recovers ballot => h.recovered_owner recovers ballot kept
    · exact (h.weaken fun _ hm => hm.submission).recovered_submission puts sound ready value kept

section Once

variable {σ : SystemState D} {i : Fin D.processes} {s : ProposerState} {c : Call}

/-- What is delivered with the id of a process is what the process sent for the instance. -/
theorem delivered_own (h : SystemOk (VotesKept True cfg) (SystemState.Learned True True)
      SystemState.Faithful σ) (distinct : D.IdsDistinct) {k : Fin D.processes} {d : DeliverCall}
    (delivered : d ∈ (σ.processes k).learner.delivered)
    (own : (D.role i).installedId? = some d.proposer)
    (proposer : (σ.processes i).proposer = some s) :
    ∃ m, Sends s.sent m ∧ m.iid = d.iid ∧ m.value = d.value := by
  obtain ⟨m, hm, hiid, -, hvalue, -, -, howner⟩ := h.delivered delivered
  obtain ⟨j, u, m₀, hid, hu, hsent, hiid₀, -, hvalue₀⟩ :=
    (h.weaken fun _ hm => hm.submission).ownSubmission hm
  rw [howner trivial] at hid
  obtain rfl := distinct j i _ hid own
  obtain rfl := Option.some.inj (hu.symm.trans proposer)
  exact ⟨m₀, hsent, hiid₀.trans hiid, hvalue₀.trans hvalue⟩

/-- A submission is delivered with the id of its proposer. -/
theorem delivers_proposer (h : SystemOk (VotesKept True cfg) (SystemState.Learned True True)
      SystemState.Faithful σ) {k : Fin D.processes} {d : DeliverCall}
    (delivered : d ∈ (σ.processes k).learner.delivered) (delivers : σ.Delivers i c d) :
    (D.role i).installedId? = some d.proposer := by
  obtain ⟨m, hm, hiid, -, hvalue, -, -, howner⟩ := h.delivered delivered
  obtain ⟨j, u, m₀, hid, hu, hsent, hiid₀, -, hvalue₀⟩ :=
    (h.weaken fun _ hm => hm.submission).ownSubmission hm
  rw [howner trivial] at hid
  obtain ⟨-, -, hnone⟩ := delivers
  obtain rfl := hnone j hid u hu m₀ hsent (hiid₀.trans hiid) (hvalue₀.trans hvalue)
  exact hid

/-- The two deliver calls of an instance name the same proposer. -/
theorem delivered_same_proposer (puts : ∀ a, (D.disk a).PutsSucceed) (distinct : D.IdsDistinct)
    (h : SystemOk (VotesKept True cfg) (SystemState.Learned True True) SystemState.Faithful σ)
    {k k' : Fin D.processes} {d d' : DeliverCall}
    (delivered : d ∈ (σ.processes k).learner.delivered)
    (delivered' : d' ∈ (σ.processes k').learner.delivered) (iid : d.iid = d'.iid) :
    d.proposer = d'.proposer := by
  have hvotes := acceptors_votesSealed puts
    (fun _ _ _ h => ⟨h.keepsValue, h.keepsVote⟩) h.acceptors
  obtain ⟨m, hm, hchosen, hiid, -, -, howner⟩ := h.delivered_chosen distinct delivered
  obtain ⟨m', hm', hchosen', hiid', -, -, howner'⟩ := h.delivered_chosen distinct delivered'
  have hagree := h.chosen_agree distinct hvotes (fun _ hm => hm.safe) hm hm'
    (hiid.trans (iid.trans hiid'.symm)) hchosen hchosen'
  rw [← howner trivial, ← howner' trivial]
  exact hagree

/-- A call that moved on from an instance is not delivered there. -/
theorem not_delivered_before (puts : ∀ a, (D.disk a).PutsSucceed) (distinct : D.IdsDistinct)
    (h : SystemOk (VotesKept True cfg) (SystemState.Learned True True) SystemState.Faithful σ)
    {id : Int} (installed : (D.role i).installedId? = some id)
    (proposer : (σ.processes i).proposer = some s) (settled : c.Settled id s)
    {k : Fin D.processes} {d : DeliverCall} {later : Int}
    (delivered : d ∈ (σ.processes k).learner.delivered) (delivers : σ.Delivers i c d)
    (sent : later ∈ c.instances) : ¬ d.iid < later := by
  intro hlt
  obtain ⟨d₀, hd₀, hiid, hother⟩ := settled.moved d.iid delivers.1 later sent hlt
  have hlocal := (h.processes i).delivered s d₀ proposer (settled.delivered d₀ hd₀)
  have hsame := delivered_same_proposer puts distinct h hlocal delivered hiid
  have hown := delivers_proposer h delivered delivers
  rw [installed] at hown
  exact hother (hsame.trans (Option.some.inj hown).symm)

end Once

/-- A call that returns had its value delivered to its own learner during the call, and
no call is delivered in two instances. -/
theorem submission_delivered_once (puts : ∀ a, (D.disk a).PutsSucceed) (distinct : D.IdsDistinct)
    {σ : SystemState D} (h : Reachable (system D) SubmitsOnce σ) {i : Fin D.processes}
    {s : ProposerState} (proposer : (σ.processes i).proposer = some s) {c : Call}
    (call : c ∈ callsOf s.trace) :
    (c.returned = true → (c.value.length : Int) ≤ paxosMaxValueSize →
      ∃ d ∈ c.delivered, d ∈ (σ.processes i).learner.delivered ∧ d.size = c.value.length ∧
        σ.Delivers i c d) ∧
    ∀ (j k : Fin D.processes) (d d' : DeliverCall), d ∈ (σ.processes j).learner.delivered →
      d' ∈ (σ.processes k).learner.delivered → σ.Delivers i c d → σ.Delivers i c d' →
      d.iid = d'.iid := by
  have hok := system_ok (submitsOnce_keepsOk puts) h
  obtain ⟨id, hid, hsound, hkept⟩ := proposer_calls
    (fun id hid => (D.installed_range i id hid).1) ((hok.processes i).proposer s proposer)
  have hsettled := hkept.settled c call
  constructor
  · intro returned small
    obtain ⟨d, hd, rfl, hmem⟩ := hsettled.woken returned small
    have hlocal := (hok.processes i).delivered s d proposer (hsettled.delivered d hd)
    -- both the call and the value delivered come from the one accept of the instance
    obtain ⟨m, hm, hiid, hvalue⟩ := delivered_own hok distinct hlocal hid proposer
    obtain ⟨m', hm', hiid', hvalue'⟩ := hsettled.sent d.iid hmem
    obtain rfl := hsound.one_accept m m' hm hm' (hiid.trans hiid'.symm)
    have heq : d.value = c.value := hvalue.symm.trans hvalue'
    obtain ⟨-, -, -, -, -, hsize, -⟩ := hok.delivered hlocal
    refine ⟨d, hd, hlocal, hsize.trans (by rw [heq]), hmem, heq, ?_⟩
    intro j hj _ _ _ _ _ _
    exact distinct j i _ hj hid
  · intro j k d d' delivered delivered' delivers delivers'
    have hle := not_delivered_before puts distinct hok hid proposer hsettled delivered delivers
      delivers'.1
    have hge := not_delivered_before puts distinct hok hid proposer hsettled delivered' delivers'
      delivers.1
    omega

end System

/-- The value of proposer 1 is decided in a fast round and its call returns. -/
def returnedRun : List (Action narrowFive) :=
  openRound (0 : Fin 5) 20 0 ++ [.submit (1 : Fin 5) [7]] ++ toAll (acceptPacket sevenAccept) ++
    fromAll (1 : Fin 5) sevenAccept.learnPacket

theorem returnedRun_submitsOnce :
    Meets act SubmitsOnce (systemStart narrowFive) returnedRun := by
  have hchecked : Meets act
      (fun σ action => AcceptorsMeet (VotesKept True narrow) σ action ∧ NoOverflow σ action ∧
        PicksMeet OwnerKept σ action)
      (systemStart narrowFive) returnedRun := by
    decide +kernel
  exact hchecked.mono fun σ action h =>
    ⟨⟨h.1, h.2.1, unrivalled_of_three (by decide) _ σ action⟩, h.2.2⟩

theorem submission_delivered_once_returnedRun :
    ∃ σ, returnedRun.foldlM act (systemStart narrowFive) = some σ ∧
      ∃ s, (σ.processes (1 : Fin 5)).proposer = some s ∧ ∃ c ∈ callsOf s.trace,
        c.value = [7] ∧ c.returned = true ∧
          ∃ d ∈ c.delivered, d ∈ (σ.processes (1 : Fin 5)).learner.delivered ∧
            d.size = c.value.length ∧ σ.Delivers (1 : Fin 5) c d := by
  have hrun : ∃ σ, returnedRun.foldlM act (systemStart narrowFive) = some σ ∧
      ∃ s, (σ.processes (1 : Fin 5)).proposer = some s ∧ ∃ c ∈ callsOf s.trace,
        c.value = [7] ∧ c.returned = true := by
    decide +kernel
  obtain ⟨σ, run, s, hs, c, hc, hvalue, returned⟩ := hrun
  have hreach : Reachable (system narrowFive) SubmitsOnce σ :=
    Reachable.run (fun _ _ _ move => move) (.init rfl) returnedRun_submitsOnce run
  exact ⟨σ, run, s, hs, c, hc, hvalue, returned,
    (submission_delivered_once (fun _ => quietDisk_putsSucceed) (fiveProcesses_idsDistinct _ _)
      hreach hs hc).1 returned (by rw [hvalue]; decide)⟩

/-- The value of proposer 1 is delivered for instance 0 as the leader's. That ends a call of
the leader's own client, and makes proposer 1 send it again for instance 1. -/
def lostAndDoubled : List (Action shippedFive) :=
  let learn := { sevenAccept with ballot := 40, proposerId := 0 }.learnPacket
  let again := { sevenAccept with iid := 1 }
  recoveredTwice ++ [.submit (0 : Fin 5) [9]] ++ fromAll (0 : Fin 5) learn ++
    fromAll (1 : Fin 5) learn ++ toAll (acceptPacket again) ++ fromAll (1 : Fin 5) again.learnPacket

def proposerOne : Fin shippedFive.processes := (1 : Fin 5)

theorem lostAndDoubled_not_once :
    shippedFive.IdsDistinct ∧ ∃ σ, Reachable (system shippedFive) anyStep σ ∧
      (∃ i s, (σ.processes i).proposer = some s ∧ ∃ c ∈ callsOf s.trace,
        c.returned = true ∧ (c.value.length : Int) ≤ paxosMaxValueSize ∧
          ∀ d ∈ (σ.processes i).learner.delivered, d.value ≠ c.value) ∧
      ∃ i s, (σ.processes i).proposer = some s ∧ ∃ c ∈ callsOf s.trace,
        ∃ d ∈ (σ.processes i).learner.delivered, ∃ d' ∈ (σ.processes i).learner.delivered,
          σ.Delivers i c d ∧ σ.Delivers i c d' ∧ d.iid ≠ d'.iid := by
  have hrun : ∃ σ, lostAndDoubled.foldlM act (systemStart shippedFive) = some σ ∧
      (∃ s, (σ.processes (0 : Fin 5)).proposer = some s ∧ ∃ c ∈ callsOf s.trace,
        c.returned = true ∧ (c.value.length : Int) ≤ paxosMaxValueSize ∧
          ∀ d ∈ (σ.processes (0 : Fin 5)).learner.delivered, d.value ≠ c.value) ∧
      ∃ s, (σ.processes proposerOne).proposer = some s ∧ ∃ c ∈ callsOf s.trace,
        ∃ d ∈ (σ.processes proposerOne).learner.delivered,
          ∃ d' ∈ (σ.processes proposerOne).learner.delivered,
            σ.Delivers proposerOne c d ∧ σ.Delivers proposerOne c d' ∧ d.iid ≠ d'.iid := by
    decide +kernel
  obtain ⟨σ, run, lost, doubled⟩ := hrun
  have hreach : Reachable (system shippedFive) anyStep σ :=
    Reachable.run (fun _ _ _ move => move) (.init rfl)
      (Meets.of_forall (fun _ _ => trivial) _ _) run
  exact ⟨fiveProcesses_idsDistinct _ _, σ, hreach, ⟨(0 : Fin 5), lost⟩, proposerOne, doubled⟩

end LibFastPaxos
