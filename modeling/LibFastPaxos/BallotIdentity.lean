import LibFastPaxos.SystemInvariant

/-!
Ballots that identify values. A proposer sends one accept for each instance at its
fixed ballot and the leader one for each of its ballots, which are all higher. Two
accepts of one instance and ballot can so differ only if two processes have the same
`proposer_id`, and `proposer_init_and_deliver` always installs 0.
-/

namespace LibFastPaxos

open Transition

def Role.andDeliver : Role → Bool
  | .proposerAndDeliver _ _ _ => true
  | .learner | .proposer _ _ => false

section Deployments

variable {cfg : Config} (D : Deployment cfg)

def Deployment.PropIdsDistinct : Prop :=
  ∀ i j id, (D.role i).propId? = some id → (D.role j).propId? = some id → i = j

/-- No two processes have the same `proposer_id`. -/
def Deployment.IdsDistinct : Prop :=
  ∀ i j id, (D.role i).installedId? = some id → (D.role j).installedId? = some id → i = j

/-- One process at most starts through `proposer_init_and_deliver`, and then none
through `proposer_init` with 0. -/
structure Deployment.EntryPointsFit : Prop where
  one_deliver : ∀ i j, (D.role i).andDeliver = true → (D.role j).andDeliver = true → i = j
  no_zero : ∀ i j isLeader, (D.role i).andDeliver = true → D.role j ≠ .proposer 0 isLeader

theorem propIdsDistinct_of_injective
    (injective : ∀ i j, (D.role i).propId? = (D.role j).propId? → i = j) : D.PropIdsDistinct :=
  fun i j _ hi hj => injective i j (hi.trans hj.symm)

theorem installedId_of_propId {role : Role} (plain : role.andDeliver = false) :
    role.propId? = role.installedId? := by
  cases role with
  | learner | proposer propId isLeader => rfl
  | proposerAndDeliver propId isLeader f => cases plain

theorem installedId_of_andDeliver {role : Role} (deliver : role.andDeliver = true) :
    role.installedId? = some 0 := by
  cases role with
  | learner | proposer propId isLeader => cases deliver
  | proposerAndDeliver propId isLeader f => rfl

/-- A process with id 0 that does not start through `proposer_init_and_deliver`. -/
theorem proposer_zero {role : Role} (plain : role.andDeliver = false)
    (id : role.installedId? = some 0) : ∃ isLeader, role = .proposer 0 isLeader := by
  cases role with
  | learner => cases id
  | proposer propId isLeader =>
      cases id
      exact ⟨isLeader, rfl⟩
  | proposerAndDeliver propId isLeader f => cases plain

variable {D}

theorem idsDistinct_iff (distinct : D.PropIdsDistinct) : D.IdsDistinct ↔ D.EntryPointsFit := by
  constructor
  · intro h
    refine ⟨?_, ?_⟩
    · intro i j hi hj
      exact h i j 0 (installedId_of_andDeliver hi) (installedId_of_andDeliver hj)
    · intro i j isLeader hi hj
      have heq := h i j 0 (installedId_of_andDeliver hi) (by rw [hj]; rfl)
      rw [heq, hj] at hi
      cases hi
  · intro h i j id hi hj
    cases hdi : (D.role i).andDeliver with
    | true =>
        rw [installedId_of_andDeliver hdi] at hi
        cases hi
        cases hdj : (D.role j).andDeliver with
        | true => exact h.one_deliver i j hdi hdj
        | false =>
            obtain ⟨isLeader, hrole⟩ := proposer_zero hdj hj
            exact absurd hrole (h.no_zero i j isLeader hdi)
    | false =>
        cases hdj : (D.role j).andDeliver with
        | true =>
            rw [installedId_of_andDeliver hdj] at hj
            cases hj
            obtain ⟨isLeader, hrole⟩ := proposer_zero hdi hi
            exact absurd hrole (h.no_zero j i isLeader hdj)
        | false =>
            rw [← installedId_of_propId hdi] at hi
            rw [← installedId_of_propId hdj] at hj
            exact distinct i j id hi hj

end Deployments

section System

variable {cfg : Config} {D : Deployment cfg}

/-- Accepts of one instance and ballot carry one value and one `proposer_id`. -/
def BallotsIdentify (σ : SystemState D) : Prop :=
  ∀ m m', Sends σ.toAcceptors m → Sends σ.toAcceptors m' → m.iid = m'.iid →
    m.ballot = m'.ballot →
    m.value = m'.value ∧ m.valueSize = m'.valueSize ∧ m.proposerId = m'.proposerId

section Sound

variable {cond : DiskEnv → AcceptorState → AcceptorOp → Prop}
  {learned : SystemState D → LearnMsg → Prop} {justified : SystemState D → AcceptMsg → Prop}
  {σ : SystemState D}

/-- One ballot of one instance names one accept. -/
theorem SystemOk.one_accept (h : SystemOk cond learned justified σ) (distinct : D.IdsDistinct)
    {m m' : AcceptMsg} (sent : Sends σ.toAcceptors m) (sent' : Sends σ.toAcceptors m')
    (iid : m.iid = m'.iid) (ballot : m.ballot = m'.ballot) : m = m' := by
  have fast_low : ∀ {i : Fin D.processes} {id : Int} {s : ProposerState} {a b : AcceptMsg},
      (D.role i).installedId? = some id → ProposerSound cfg id s → Sends s.sent a →
      cfg.minBallot ≤ b.ballot → a.ballot ≠ b.ballot := by
    intro i id s a b hid hsound ha hlow heq
    have hballot := (hsound.own a ha).ballot_eq
    have hrange := D.installed_range i id hid
    simp only [Config.minBallot] at hlow
    omega
  cases h.sender sent with
  | inl hp =>
      obtain ⟨i, s, id, hs, hid, hsound, hm⟩ := hp
      cases h.sender sent' with
      | inl hp' =>
          obtain ⟨j, s', id', hs', hid', hsound', hm'⟩ := hp'
          have hb := (hsound.own m hm).ballot_eq
          have hb' := (hsound'.own m' hm').ballot_eq
          obtain rfl : id = id' := by omega
          obtain rfl := distinct i j id hid hid'
          obtain rfl := Option.some.inj (hs.symm.trans hs')
          exact hsound.one_accept m m' hm hm' iid
      | inr hl' =>
          obtain ⟨j, l, hl, -, hlead, hm'⟩ := hl'
          exact absurd ballot (fast_low hid hsound hm (hlead.ballot_low m' hm'))
  | inr hl =>
      obtain ⟨i, l, hl, hrole, hlead, hm⟩ := hl
      cases h.sender sent' with
      | inl hp' =>
          obtain ⟨j, s', id', hs', hid', hsound', hm'⟩ := hp'
          exact absurd ballot.symm (fast_low hid' hsound' hm' (hlead.ballot_low m hm))
      | inr hl' =>
          obtain ⟨j, l', hl', hrole', -, hm'⟩ := hl'
          obtain rfl := D.one_leader i j hrole hrole'
          obtain rfl := Option.some.inj (hl.symm.trans hl')
          exact hlead.one_accept m m' hm hm' iid ballot

end Sound

theorem anyStep_meets (σ : SystemState D) (action : Action D) :
    AcceptorsMeet (fun _ _ _ => True) σ action := by
  cases action with
  | acceptor a msg => exact Meets.of_forall (fun _ _ => trivial) _ _
  | receive _ _ | lsyncTimer _ | phase1Timer _ | phase2Timer _ | timeout _ _ | submit _ _ =>
      trivial

/-- Nothing is asked of the acceptors and nothing known of what is learned. -/
theorem noOverflow_keepsOk (puts : ∀ a, (D.disk a).PutsSucceed) :
    KeepsOk D (fun _ _ _ => True) (fun _ _ => True) (fun _ _ => True) (fun _ _ _ => True)
      NoOverflow := by
  refine ⟨puts, fun σ action _ => anyStep_meets σ action, fun _ _ h => h, ?_, ?_, ?_, ?_, ?_⟩
  · intro σ action _
    cases action with
    | receive i msg => exact fun _ _ _ _ _ _ _ _ _ => trivial
    | acceptor _ _ | lsyncTimer _ | phase1Timer _ | phase2Timer _ | timeout _ _ | submit _ _ =>
        trivial
  · exact fun _ _ _ _ _ => trivial
  · exact fun _ _ _ _ _ _ _ => trivial
  · exact fun _ _ _ _ _ _ => trivial
  · exact fun _ _ _ _ _ _ _ _ _ => trivial

/-! ### Two processes with one id -/

/-- A process that submits a small value at the start. -/
theorem start_submits (cfg : Config) {role : Role} {id : Int}
    (hid : role.installedId? = some id) (value : Bytes)
    (small : (value.length : Int) ≤ paxosMaxValueSize) :
    ∃ s, (role.start cfg).proposer = some s ∧ s.clientWaiting = false ∧
      Sends (proposerSubmitValue s value).sent
        { iid := 0, ballot := cfg.maxProposers + id, valueSize := value.length
          proposerId := id, value := value } := by
  have hsize : ¬ (value.length : Int) > paxosMaxValueSize := by omega
  cases role with
  | learner => cases hid
  | proposer propId isLeader | proposerAndDeliver propId isLeader f =>
      cases hid
      refine ⟨_, rfl, rfl, ?_⟩
      simp only [proposerSubmitValue]
      rw [if_neg hsize]
      exact ⟨_, List.mem_cons_self, rfl⟩

theorem act_submit {σ : SystemState D} {i : Fin D.processes} {s : ProposerState}
    (proposer : (σ.processes i).proposer = some s) (idle : s.clientWaiting = false)
    (value : Bytes) :
    act σ (.submit i value) = some (σ.setProcess i
      { σ.processes i with proposer := some (proposerSubmitValue s value) }) := by
  simp [act, proposer, idle]

/-- Both submit a value for instance 0 at the same fixed ballot. -/
theorem shared_id_collides {i j : Fin D.processes} {id : Int}
    (hi : (D.role i).installedId? = some id) (hj : (D.role j).installedId? = some id)
    (ne : i ≠ j) :
    ∃ σ, Reachable (system D) NoOverflow σ ∧ ¬ BallotsIdentify σ := by
  obtain ⟨s, hs, hidle, hsent⟩ := start_submits cfg hi [7] (by decide)
  obtain ⟨t, ht, hidle', hsent'⟩ := start_submits cfg hj [8] (by decide)
  let p : Process :=
    { (D.role i).start cfg with proposer := some (proposerSubmitValue s [7]) }
  let q : Process :=
    { (D.role j).start cfg with proposer := some (proposerSubmitValue t [8]) }
  let σ : SystemState D := (systemStart D).setProcess i p
  have hother : σ.processes j = (D.role j).start cfg := Function.update_of_ne ne.symm _ _
  have hself : ∀ (τ : SystemState D) k r, (τ.setProcess k r).processes k = r :=
    fun τ k r => Function.update_self _ _ _
  have hfirst : act (systemStart D) (.submit i [7]) = some σ := act_submit hs hidle [7]
  have hsecond : act σ (.submit j [8]) = some (σ.setProcess j q) := by
    rw [act_submit (hother.symm ▸ ht) hidle' [8], hother]
  have hreach : Reachable (system D) NoOverflow (σ.setProcess j q) :=
    .step (a := .submit j [8]) (.step (a := .submit i [7]) (.init rfl) trivial hfirst) trivial
      hsecond
  refine ⟨σ.setProcess j q, hreach, ?_⟩
  have hkept : (σ.setProcess j q).processes i = p := by
    rw [show (σ.setProcess j q).processes i = σ.processes i from Function.update_of_ne ne _ _]
    exact hself _ _ _
  have sends : ∀ {k r u v}, (σ.setProcess j q).processes k = r → r.proposer = some u →
      Sends u.sent v → Sends (σ.setProcess j q).toAcceptors v := by
    intro k r u v hk hu ⟨packet, hpacket, hdata⟩
    refine ⟨packet, mem_toAcceptors.mpr ⟨k, ?_⟩, hdata⟩
    rw [hk]
    exact mem_sent.mpr (.inr (.inl ⟨u, hu, hpacket⟩))
  intro identify
  have hvalue : ([7] : Bytes) = [8] :=
    (identify _ _ (sends hkept rfl hsent) (sends (hself _ _ _) rfl hsent') rfl rfl).1
  exact absurd hvalue (by decide)

/-- In every run in which no ballot of the leader runs over, ballots identify values
exactly when the entry points install different ids. -/
theorem ballots_identify_iff (puts : ∀ a, (D.disk a).PutsSucceed) (distinct : D.PropIdsDistinct) :
    (∀ σ, Reachable (system D) NoOverflow σ → BallotsIdentify σ) ↔ D.EntryPointsFit := by
  rw [← idsDistinct_iff distinct]
  constructor
  · intro identify i j id hi hj
    by_contra hne
    obtain ⟨σ, hσ, hnot⟩ := shared_id_collides hi hj hne
    exact hnot (identify σ hσ)
  · intro hids σ hσ m m' hm hm' hiid hballot
    obtain rfl := (system_ok (noOverflow_keepsOk puts) hσ).one_accept hids hm hm' hiid hballot
    exact ⟨rfl, rfl, rfl⟩

/-- Three acceptors, the leader, a proposer that delivers to its client and a learner. -/
def mixedDeployment : Deployment .shipped where
  disk := fun _ => quietDisk
  processes := 3
  role := fun i => match i with
    | 0 => .proposer 1 true
    | 1 => .proposerAndDeliver 2 false true
    | 2 => .learner
  installed_range := by decide
  one_leader := by decide

theorem ballots_identify_mixed :
    mixedDeployment.EntryPointsFit ∧
      ∀ σ, Reachable (system mixedDeployment) NoOverflow σ → BallotsIdentify σ := by
  have hfit : mixedDeployment.EntryPointsFit := ⟨by decide, by decide⟩
  exact ⟨hfit, (ballots_identify_iff (fun _ => quietDisk_putsSucceed)
    (propIdsDistinct_of_injective _ (by decide))).mpr hfit⟩

/-- Proposers 1 and 2 both start through `proposer_init_and_deliver`, and proposer 1 leads. -/
def deliverDeployment : Deployment .shipped where
  disk := fun _ => quietDisk
  processes := 2
  role := fun i => match i with
    | 0 => .proposerAndDeliver 1 true true
    | 1 => .proposerAndDeliver 2 false true
  installed_range := by decide
  one_leader := by decide

theorem deliverDeployment_reuses_ballot :
    deliverDeployment.PropIdsDistinct ∧
      ∃ σ, Reachable (system deliverDeployment) NoOverflow σ ∧ ¬ BallotsIdentify σ := by
  have first : (deliverDeployment.role ⟨0, by decide⟩).installedId? = some 0 := rfl
  have second : (deliverDeployment.role ⟨1, by decide⟩).installedId? = some 0 := rfl
  exact ⟨propIdsDistinct_of_injective _ (by decide),
    shared_id_collides first second (by decide)⟩

end System
end LibFastPaxos
