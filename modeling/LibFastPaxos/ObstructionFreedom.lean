import LibFastPaxos.Agreement
import LibFastPaxos.LeaderIssues
import LibFastPaxos.LeaderReceives

/-!
What the phase-2 timer is for. Values that collide leave an instance without a quorum for
any of them, and nothing is delivered any more. Then the leader and a quorum of acceptors
can finish the instance by themselves: the timer prepares it under a higher ballot, the
promises of the quorum come back, and the leader has a value accepted, or opens the
instance for the values of the proposers.
-/

namespace LibFastPaxos

open Transition

/-! ### The leader -/

section Leader

variable {cfg : Config} {s t : LeaderState} {iid ballot : Int}

/-- A phase-2 packet for this instance alone. -/
def PaxosMsg.Proposes (packet : PaxosMsg) (iid ballot : Int) : Prop :=
  (∃ m, packet.data = .accept m ∧ m.iid = iid ∧ m.ballot = ballot) ∨
    ∃ av, packet.data = .anyval av ∧ av.ids.take av.count.toNat = [iid] ∧ av.ballot = ballot

/-- The record waits for promises at the ballot; these acceptors have answered. -/
structure LeaderState.Polls (s : LeaderState) (cfg : Config) (iid ballot : Int)
    (heard : List Nat) : Prop where
  iid_eq : (s.slot cfg iid).iid = iid
  ballot_eq : (s.slot cfg iid).ballot = ballot
  pending : (s.slot cfg iid).status = .p1Pending
  count_eq : (s.slot cfg iid).promiseCount = heard.length
  missing : ∀ j, j ∉ heard → ((s.slot cfg iid).promises j).iid = -1

theorem exists_prepared {packets : List PaxosMsg} {entry : PrepareMsg}
    (alone : packets.flatMap PaxosMsg.prepared = [entry]) :
    ∃ packet ∈ packets, packet.prepared = [entry] := by
  induction packets with
  | nil => cases alone
  | cons packet packets ih =>
      rw [List.flatMap_cons, List.append_eq_singleton_iff] at alone
      cases alone with
      | inl later =>
          obtain ⟨p, hp, hprepared⟩ := ih later.2
          exact ⟨p, List.mem_cons_of_mem packet hp, hprepared⟩
      | inr first => exact ⟨packet, List.mem_cons_self, first.1⟩

/-- The leader holds its current instance and has not delivered it. -/
structure LeaderState.Holds (s : LeaderState) (cfg : Config) : Prop where
  iid_eq : (s.slot cfg s.currentIid).iid = s.currentIid
  opened : (s.slot cfg s.currentIid).status = .p1Pending ∨
    (s.slot cfg s.currentIid).status = .p1Finished

theorem LeaderState.Holds.polls (h : s.Holds cfg)
    (slot : t.slot cfg s.currentIid = (s.slot cfg s.currentIid).restarted cfg) :
    t.Polls cfg s.currentIid (cfg.ballotNext (s.slot cfg s.currentIid).ballot) [] := by
  constructor
  · rw [slot]
    exact h.iid_eq
  · rw [slot]
    rfl
  · rw [slot]
    cases h.opened with
    | inl pending => simp [ProposerRecord.restarted, ProposerRecord.clearPromises, pending]
    | inr finished => simp [ProposerRecord.restarted, ProposerRecord.clearPromises, finished]
  · rw [slot]
    rfl
  · intro j _
    rw [slot]
    rfl

/-- The second phase-2 check in a row prepares the current instance again. -/
theorem LeaderState.Holds.restart (h : s.Holds cfg) (stuck : s.currentIid = s.p2CurrentIid) :
    ∃ t, phase2CheckCb cfg s = some t ∧ t.currentIid = s.currentIid ∧
      t.p2CurrentIid = s.currentIid ∧
      t.Polls cfg s.currentIid (cfg.ballotNext (s.slot cfg s.currentIid).ballot) [] ∧
      ∃ packet ∈ t.sent, packet.prepared =
        [{ iid := s.currentIid, ballot := cfg.ballotNext (s.slot cfg s.currentIid).ballot }] := by
  have hruns : phase2CheckCb cfg s ≠ none := fun aborts =>
    ((phase2CheckCb_eq_none cfg s).mp aborts).2 h.iid_eq
  obtain ⟨t, ht⟩ := Option.ne_none_iff_exists'.mp hruns
  have hevent : leaderEvent cfg s .phase2Timer = some t := ht
  obtain ⟨packets, hsent, hprepared⟩ := leaderEvent_issues hevent
  rw [LeaderState.issues, if_pos stuck, LeaderState.repeats, List.append_nil] at hprepared
  obtain ⟨packet, hpacket, halone⟩ := exists_prepared hprepared
  refine ⟨t, ht, ?_, ?_, ?_, packet, ?_, halone⟩
  · cases phase2CheckCb_check cfg s ht <;> rfl
  · cases phase2CheckCb_check cfg s ht <;> rfl
  · cases phase2CheckCb_check cfg s ht with
    | progress moved => exact absurd stuck moved
    | restarted _ own msgSize prepares sent =>
        exact h.polls (slot_setSlot cfg s _ _)
  · rw [hsent]
    exact List.mem_append_left _ (List.mem_reverse.mpr hpacket)

theorem idsFromTo_self (i : Int) : idsFromTo i i = [i] := by
  simp [idsFromTo]

/-- One ready instance of a window of its own is answered by one packet. -/
theorem executePhase2_alone (own : (s.slot cfg iid).iid = iid)
    (ready : (s.slot cfg iid).status = .p1Ready) (nonneg : 0 ≤ (s.slot cfg iid).ballot) :
    ∃ packet, (executePhase2 cfg s iid iid).sent = packet :: s.sent ∧
      packet.Proposes iid (s.slot cfg iid).ballot := by
  have hslot : s.initAnymsg.slot cfg iid = s.slot cfg iid := rfl
  have hready : (s.initAnymsg.slot cfg iid).status = .p1Ready := ready
  simp only [executePhase2, idsFromTo_self, List.foldl_cons, List.foldl_nil]
  cases hvalue : phase2Value cfg (s.slot cfg iid) with
  | some pi =>
      rw [phase2Instance_of_value hready hvalue]
      refine ⟨acceptPacket (acceptOf cfg (s.slot cfg iid) pi), ?_, .inl ⟨_, rfl, own, rfl⟩⟩
      rw [if_neg (by simp [finish, LeaderState.setSlot, LeaderState.initAnymsg])]
      rfl
  | none =>
      have hempty : Buffered s.initAnymsg [] := ⟨rfl, rfl⟩
      obtain ⟨hbuffered, hsent⟩ := bufferItem_spec hempty (by decide) iid (s.slot cfg iid).ballot
      have hroom : decide (([] : AnyvalItems).length + 1 = anyvalCapacity) = false := rfl
      simp only [hroom, Bool.false_eq_true, if_false, List.nil_append] at hbuffered hsent
      rw [phase2Instance_of_no_value hready hvalue, hslot]
      generalize bufferItem s.initAnymsg iid (s.slot cfg iid).ballot = u at hbuffered hsent ⊢
      have hanymsg : u.anymsg = anymsgOf [(iid, (s.slot cfg iid).ballot)] := hbuffered.anymsg_eq
      have hballot : highestBallot [(iid, (s.slot cfg iid).ballot)] = (s.slot cfg iid).ballot :=
        if_pos (by omega)
      rw [if_pos (by simp [LeaderState.setSlot, hanymsg, anymsgOf])]
      refine ⟨_, congrArg (List.cons _) hsent, .inr ⟨u.anymsg, rfl, ?_, ?_⟩⟩
      · rw [hanymsg]
        rfl
      · rw [hanymsg]
        exact hballot

theorem LeaderState.Polls.store {heard : List Nat} {p : PromiseMsg} {j : Nat}
    (h : s.Polls cfg iid ballot heard) (slot : t.slot cfg iid = (s.slot cfg iid).store p j) :
    t.Polls cfg iid ballot (heard ++ [j]) := by
  constructor
  · rw [slot]
    exact h.iid_eq
  · rw [slot]
    exact h.ballot_eq
  · rw [slot]
    exact h.pending
  · rw [slot]
    simp [ProposerRecord.store, h.count_eq]
  · intro k hk
    have hne : k ≠ j := fun heq => hk (by simp [heq])
    rw [slot]
    simpa [ProposerRecord.store, hne] using h.missing k fun hold => hk (List.mem_append_left _ hold)

/-- A promise that the record waits for, in a packet of its own. -/
theorem LeaderState.Polls.hear {heard : List Nat} (h : s.Polls cfg iid ballot heard)
    (nonneg : 0 ≤ ballot) {batch : PromiseBatchMsg} {p : PromiseMsg} {j : Nat}
    (alone : batch.data.take batch.count.toNat = [p]) (acceptorId : batch.acceptorId = j)
    (piid : p.iid = iid) (pballot : p.ballot = ballot) (fresh : j ∉ heard) :
    ((heard.length : Int) + 1 < cfg.quorum →
        (leaderHandlePromiseMsg cfg s batch).Polls cfg iid ballot (heard ++ [j])) ∧
      (cfg.quorum ≤ (heard.length : Int) + 1 →
        ∃ packet ∈ (leaderHandlePromiseMsg cfg s batch).sent, packet.Proposes iid ballot) := by
  subst piid pballot
  have hends : firstIid batch = p.iid ∧ lastIid batch = p.iid := by
    simp [firstIid, lastIid, alone]
  have hstore : storePromises cfg s batch = (handlePromise cfg s p j).1 := by
    simp [storePromises, alone, acceptorId]
  have hawaits : (s.slot cfg p.iid).Awaits p j :=
    ⟨h.iid_eq, h.pending, h.ballot_eq, by simpa using h.missing j fresh⟩
  rw [leaderHandlePromiseMsg_eq, hends.1, hends.2, hstore]
  have outcome := handlePromise_outcome cfg s p j
  generalize handlePromise cfg s p j = res at outcome ⊢
  have hcount := h.count_eq
  cases outcome with
  | ignored unawaited => exact absurd hawaits unawaited
  | stored _ short =>
      refine ⟨fun _ => ?_, fun quorum => by omega⟩
      have hstored : (s.setSlot cfg p.iid ((s.slot cfg p.iid).store p j)).slot cfg p.iid =
          (s.slot cfg p.iid).store p j := slot_setSlot cfg s _ _
      have hpending : ((s.slot cfg p.iid).store p j).status = .p1Pending := h.pending
      have hidle : ∀ i ∈ idsFromTo p.iid p.iid,
          ((s.setSlot cfg p.iid ((s.slot cfg p.iid).store p j)).slot cfg i).status ≠ .p1Ready := by
        intro i hi
        obtain rfl := List.mem_singleton.mp (idsFromTo_self p.iid ▸ hi)
        rw [hstored, hpending]
        decide
      rw [executePhase2_idle hidle]
      exact h.store hstored
  | reached _ quorum p1info =>
      refine ⟨fun short => by omega, fun _ => ?_⟩
      let r : ProposerRecord := { (s.slot cfg p.iid).store p j with status := .p1Ready }
      let u : LeaderState := { s.setSlot cfg p.iid r with p1info := p1info }
      have hready : u.slot cfg p.iid = r := slot_setSlot cfg s _ _
      have hown : (u.slot cfg p.iid).iid = p.iid := (congrArg _ hready).trans h.iid_eq
      have hstatus : (u.slot cfg p.iid).status = .p1Ready := congrArg _ hready
      have hballot : (u.slot cfg p.iid).ballot = p.ballot := (congrArg _ hready).trans h.ballot_eq
      obtain ⟨packet, hsent, hproposes⟩ :=
        executePhase2_alone hown hstatus (by rw [hballot]; exact nonneg)
      exact ⟨packet, hsent ▸ List.mem_cons_self, hballot ▸ hproposes⟩

end Leader

/-! ### An acceptor -/

section Acceptor

variable {cfg : Config} {env : DiskEnv} {s t : AcceptorState} {iid ballot : Int}

/-- The slot holds the instance at the ballot. -/
structure AcceptorState.Holds (s : AcceptorState) (cfg : Config) (iid ballot : Int) : Prop where
  iid_eq : (s.slot cfg iid).iid = iid
  ballot_eq : (s.slot cfg iid).ballot = ballot

variable (env) in
theorem readRecord_of_slot (own : (s.slot cfg iid).iid = iid) :
    readRecord cfg env s iid = some (s.slot cfg iid) := by
  have hcached : s.evicted cfg iid = false := decide_eq_false (by omega)
  simp [readRecord, hcached, own]

variable (env) in
theorem slot_writeBack (cached : s.evicted cfg iid = false) {r : AcceptorRecord}
    (own : r.iid = iid) : (writeBack cfg env s iid r).slot cfg iid = r := by
  cases writeBack_slot cfg env s own (cfg.acceptorArraySize.index iid) with
  | inl written => exact written.1
  | inr kept =>
      have hlt := kept.2 rfl
      exact absurd hlt (of_decide_eq_false cached)

/-- Below no newer instance a record is read from the slot or not at all. -/
theorem slot_of_read (cached : s.evicted cfg iid = false) {r : AcceptorRecord}
    (read : readRecord cfg env s iid = some r) :
    r = s.slot cfg iid ∧ (s.slot cfg iid).iid = iid := by
  by_cases own : (s.slot cfg iid).iid = iid
  · rw [readRecord_of_slot env own] at read
    exact ⟨(Option.some.inj read).symm, own⟩
  · simp [readRecord, cached, Ne.symm own] at read

theorem granted_record (ballot : Int) (r : AcceptorRecord) {found : Option AcceptorRecord}
    (own : ∀ r, found = some r → r.iid = iid) :
    (PrepareMsg.record { iid := iid, ballot := ballot } r found).iid = iid ∧
      (PrepareMsg.record { iid := iid, ballot := ballot } r found).ballot = ballot := by
  cases found with
  | none => exact ⟨rfl, rfl⟩
  | some r => exact ⟨own r rfl, rfl⟩

/-- The first promise of a batch. -/
theorem reset_addPromise (o : Outbox) (p : PromiseMsg) :
    (o.reset.addPromise p).promiseBatch =
      { acceptorId := o.acceptorId, count := 1, data := [p] } := by
  have hroom : (o.reset.makeRoom (sizeofPromiseMsg + p.valueSize)).promiseBatch =
      { acceptorId := o.acceptorId, count := 0, data := [] } := by
    simp only [Outbox.makeRoom]
    split <;> split <;> rfl
  simp only [Outbox.addPromise, hroom]
  rfl

variable (env) in
/-- A prepare above the ballot of the slot is granted, and its promise is the first of the batch. -/
theorem handlePrepare_alone (cached : s.evicted cfg iid = false)
    (higher : (s.slot cfg iid).iid = iid → (s.slot cfg iid).ballot < ballot) :
    ∃ t r, handlePrepare cfg env (resetPromiseBatch s) { iid := iid, ballot := ballot } = t ∧
      t.slot cfg iid = r ∧ r.iid = iid ∧ r.ballot = ballot ∧
      t.promiseBatch = { acceptorId := s.acceptorId, count := 1, data := [promiseOf r] } := by
  have hcached : (resetPromiseBatch s).evicted cfg iid = false := cached
  have hread : ∀ r, readRecord cfg env (resetPromiseBatch s) iid = some r →
      r = s.slot cfg iid ∧ (s.slot cfg iid).iid = iid :=
    fun r hr => slot_of_read hcached hr
  have hgranted : PrepareMsg.Granted { iid := iid, ballot := ballot }
      (readRecord cfg env (resetPromiseBatch s) iid) := by
    intro r hr
    obtain ⟨rfl, own⟩ := hread r hr
    exact higher own
  obtain ⟨hiid, hballot⟩ := granted_record ballot (blankRecord cfg (resetPromiseBatch s) iid)
    fun r hr => (hread r hr).1 ▸ (hread r hr).2
  have hhandle := handlePrepare_granted
    (fun evicted => absurd (hcached.symm.trans evicted) Bool.false_ne_true) hgranted
  dsimp only at hhandle
  generalize PrepareMsg.record _ _ _ = r at hhandle hiid hballot
  refine ⟨_, r, hhandle, ?_, hiid, hballot, ?_⟩
  · rw [AcceptorState.slot, (addPromiseToSendBuffer_frame _ _ _ _).1]
    exact slot_writeBack env hcached hiid
  · have hout := addPromiseToSendBuffer_out cfg env
      (writeBack cfg env (resetPromiseBatch s) iid r) r
    rw [writeBack_out, resetPromiseBatch_out] at hout
    exact (congrArg Outbox.promiseBatch hout).trans (reset_addPromise s.out _)

variable (env) in
/-- The answer to a prepare for an instance that the acceptor can look up in its slot. -/
theorem prepare_answered {packet : PaxosMsg}
    (prepared : packet.prepared = [{ iid := iid, ballot := ballot }])
    (cached : s.evicted cfg iid = false)
    (higher : (s.slot cfg iid).iid = iid → (s.slot cfg iid).ballot < ballot) :
    ∃ t, handleMessage cfg env s packet = some t ∧ t.Holds cfg iid ballot ∧
      ∃ answer ∈ t.sent, ∃ batch p, answer.data = .promise batch ∧
        batch.data.take batch.count.toNat = [p] ∧ batch.acceptorId = s.acceptorId ∧
        p.iid = iid ∧ p.ballot = ballot := by
  obtain ⟨size, data⟩ := packet
  cases data with
  | prepare b =>
      have hentries : b.data.take b.count.toNat = [{ iid := iid, ballot := ballot }] := prepared
      obtain ⟨u, r, hhandle, hslot, hiid, hballot, hbatch⟩ :=
        handlePrepare_alone env cached higher
      have hclosed : (flushSendBuffer (diskForceSyncrony cfg env u)).slot cfg iid = r := by
        rw [AcceptorState.slot, (flushSendBuffer_frame _).1, (diskForceSyncrony_frame _ _ _).1]
        exact hslot
      have hflushed : (diskForceSyncrony cfg env u).promiseBatch =
          { acceptorId := s.acceptorId, count := 1, data := [promiseOf r] } :=
        ((diskForceSyncrony_frame _ _ _).2.2.2.1).trans hbatch
      refine ⟨flushSendBuffer (diskForceSyncrony cfg env u), ?_,
        ⟨hclosed ▸ hiid, hclosed ▸ hballot⟩, _, List.mem_cons_self, _, promiseOf r, rfl, ?_, ?_,
        hiid, hballot⟩
      · simp only [handleMessage, handlePrepareBatch, hentries, List.foldl_cons, List.foldl_nil,
          hhandle, hbatch]
        rfl
      · rw [hflushed]
        rfl
      · rw [hflushed]
  | accept _ | lsync _ | promise _ | learn _ | anyval _ => cases prepared

theorem accept_logged {amsg : AcceptMsg}
    (applied : amsg.Applied cfg (readRecord cfg env s amsg.iid)) :
    LogLine.acceptApplied amsg ∈ (handleAccept cfg env s amsg).log := by
  rw [handleAccept_applied applied]
  simp [Effect.logged?]

/-- An accept at the ballot of the slot is applied. -/
theorem AcceptorState.Holds.accepts (h : s.Holds cfg iid ballot) {amsg : AcceptMsg}
    (amsg_iid : amsg.iid = iid) (amsg_ballot : amsg.ballot = ballot)
    (low : cfg.minBallot ≤ ballot) :
    LogLine.acceptApplied amsg ∈ (handleAccept cfg env s amsg).log := by
  subst amsg_iid amsg_ballot
  apply accept_logged
  rw [readRecord_of_slot env h.iid_eq]
  exact .inr ⟨h.ballot_eq.le, low⟩

variable (env) in
/-- An anyval at the ballot of the slot opens the instance for any accept. -/
theorem AcceptorState.Holds.opens (h : s.Holds cfg iid ballot) {packet : PaxosMsg}
    {av : AnyvalMsg} (data : packet.data = .anyval av)
    (alone : av.ids.take av.count.toNat = [iid]) (av_ballot : av.ballot = ballot) :
    ∃ t, handleMessage cfg env s packet = some t ∧
      ∀ amsg : AcceptMsg, amsg.iid = iid →
        LogLine.acceptApplied amsg ∈ (handleAccept cfg env t amsg).log := by
  have hcached : s.evicted cfg iid = false := decide_eq_false (by rw [h.iid_eq]; omega)
  have hread := readRecord_of_slot env h.iid_eq
  have happlied : AnyvalApplied av.ballot (readRecord cfg env s iid) := by
    rw [hread, av_ballot]
    exact .inr h.ballot_eq.le
  have hrun := handleAnyval_applied
    (fun evicted => absurd (hcached.symm.trans evicted) Bool.false_ne_true) happlied
  dsimp only at hrun
  have hslot := slot_writeBack env hcached
    (r := anyvalRecord ((readRecord cfg env s iid).getD (blankRecord cfg s iid)) iid av.ballot) rfl
  generalize writeBack cfg env s iid _ = u at hrun hslot
  refine ⟨u.emit (.log (.anyvalApplied iid av.ballot)), ?_, ?_⟩
  · simp only [handleMessage, data, handleBatchAnyval, alone, List.foldlM_cons, List.foldlM_nil,
      hrun]
    rfl
  · intro amsg own
    subst own
    apply accept_logged
    have hown : ((u.emit (.log (.anyvalApplied amsg.iid av.ballot))).slot cfg amsg.iid).iid =
        amsg.iid := congrArg AcceptorRecord.iid hslot
    rw [readRecord_of_slot env hown]
    exact .inl (congrArg AcceptorRecord.anyEnabled hslot)

end Acceptor

/-! ### The leader and a quorum -/

section System

variable {cfg : Config} {D : Deployment cfg} {σ σ₀ : SystemState D} {i : Fin D.processes}
  {Q : Finset (Fin cfg.nOfAcceptors)} {l l' : LeaderState} {iid ballot : Int}

/-- The steps of a leader and of these acceptors by themselves. -/
def Action.Among (i : Fin D.processes) (Q : Finset (Fin cfg.nOfAcceptors)) : Action D → Prop
  | .acceptor a _ => a ∈ Q
  | .receive j _ | .phase2Timer j => j = i
  | .lsyncTimer _ | .phase1Timer _ | .timeout _ _ | .submit _ _ => False

def SystemState.setLeader (σ : SystemState D) (i : Fin D.processes) (l : LeaderState) :
    SystemState D :=
  σ.setProcess i { σ.processes i with leader := some l }

theorem setLeader_leader (σ : SystemState D) (i : Fin D.processes) (l : LeaderState) :
    ((σ.setLeader i l).processes i).leader = some l := by
  simp [SystemState.setLeader, SystemState.setProcess]

theorem setLeader_toAcceptors (leader : (σ.processes i).leader = some l)
    (sent : l.sent ⊆ l'.sent) : σ.toAcceptors ⊆ (σ.setLeader i l').toAcceptors := by
  apply SystemState.Grows.toAcceptors
  apply SystemState.Grows.setProcess
  refine .of_parts (List.Subset.refl _) (List.Subset.refl _)
    (fun s hs => ⟨s, hs, List.Subset.refl _⟩) fun u hu => ?_
  obtain rfl := Option.some.inj (leader.symm.trans hu)
  exact ⟨l', rfl, sent⟩

theorem leader_toAcceptors (leader : (σ.processes i).leader = some l) : l.sent ⊆ σ.toAcceptors :=
  fun _ h => mem_toAcceptors.mpr ⟨i, mem_sent.mpr (.inr (.inr ⟨l, leader, h⟩))⟩

theorem phase2Timer_reaches (leader : (σ.processes i).leader = some l)
    (run : phase2CheckCb cfg l = some l') :
    Reaches act (Action.Among i Q) σ (σ.setLeader i l') := by
  have hkind : Action.Among i Q (.phase2Timer i) := rfl
  refine .one hkind ?_
  simp only [act, leader, Option.bind_some, run, Option.map_some]
  rfl

theorem receive_reaches (leader : (σ.processes i).leader = some l) {packet : PaxosMsg}
    (sent : packet ∈ σ.fromAcceptors) {batch : PromiseBatchMsg}
    (data : packet.data = .promise batch) :
    Reaches act (Action.Among i Q) σ (σ.setLeader i (leaderHandlePromiseMsg cfg l batch)) := by
  have hkind : Action.Among i Q (.receive i packet) := rfl
  refine .one hkind ?_
  simp only [act, if_pos sent, Process.receive, data, leader, Option.map_some]
  rfl

theorem acceptor_reaches {a : Fin cfg.nOfAcceptors} (member : a ∈ Q) {packet : PaxosMsg}
    (sent : packet ∈ σ.toAcceptors) {t : AcceptorState}
    (run : handleMessage cfg (D.disk a) (σ.acceptors a) packet = some t) :
    Reaches act (Action.Among i Q) σ (σ.setAcceptor a t) := by
  have hkind : Action.Among i Q (.acceptor a packet) := member
  refine .one hkind ?_
  simp only [act, if_pos sent, run, Option.map_some]

theorem setAcceptor_kept {done : List (Fin cfg.nOfAcceptors)}
    (kept : ∀ b, b ∉ done → σ.acceptors b = σ₀.acceptors b) (a : Fin cfg.nOfAcceptors)
    (t : AcceptorState) : ∀ b, b ∉ done ++ [a] → (σ.setAcceptor a t).acceptors b =
      σ₀.acceptors b := by
  intro b hb
  have hne : b ≠ a := fun heq => hb (by simp [heq])
  exact (Function.update_of_ne hne _ _).trans (kept b fun hold => hb (List.mem_append_left _ hold))

theorem setAcceptor_all {P : AcceptorState → Prop} {done : List (Fin cfg.nOfAcceptors)}
    (all : ∀ b ∈ done, P (σ.acceptors b)) {a : Fin cfg.nOfAcceptors} {t : AcceptorState}
    (one : P t) : ∀ b ∈ done ++ [a], P ((σ.setAcceptor a t).acceptors b) := by
  intro b hb
  by_cases heq : b = a
  · subst heq
    simpa [SystemState.setAcceptor] using one
  · simpa [SystemState.setAcceptor, heq] using
      all b ((List.mem_append.mp hb).resolve_right (by simpa using heq))

/-- A prepare of the current instance under a ballot above `top` is on its way. -/
structure Prepared (σ₀ σ : SystemState D) (i : Fin D.processes) (iid ballot : Int) : Prop where
  acceptors : σ.acceptors = σ₀.acceptors
  sent : σ₀.toAcceptors ⊆ σ.toAcceptors
  leader : ∃ l, (σ.processes i).leader = some l ∧ l.Polls cfg iid ballot []
  packet : ∃ packet ∈ σ.toAcceptors, packet.prepared = [{ iid := iid, ballot := ballot }]

theorem Prepared.of_setLeader {τ : SystemState D} (h : Prepared (σ.setLeader i l') τ i iid ballot)
    (leader : (σ.processes i).leader = some l) (sent : l.sent ⊆ l'.sent) :
    Prepared σ τ i iid ballot :=
  ⟨h.acceptors, List.Subset.trans (setLeader_toAcceptors leader sent) h.sent, h.leader, h.packet⟩

/-- Every second check raises the ballot, so that it gets above any bound. -/
theorem exists_prepared_above_of_stuck {top : Int} (fits : top + cfg.maxProposers ≤ 2147483647)
    (leader : (σ.processes i).leader = some l) (holds : l.Holds cfg)
    (stuck : l.currentIid = l.p2CurrentIid) (nonneg : 0 ≤ (l.slot cfg l.currentIid).ballot)
    (low : (l.slot cfg l.currentIid).ballot ≤ top) :
    ∃ τ ballot, Reaches act (Action.Among i Q) σ τ ∧ top < ballot ∧
      Prepared σ τ i l.currentIid ballot := by
  induction hgap : (top - (l.slot cfg l.currentIid).ballot).toNat using Nat.strong_induction_on
    generalizing σ l with
  | _ gap ih =>
      obtain ⟨t, hrun, hcurrent, hp2, hpolls, packet, hpacket, hprepared⟩ := holds.restart stuck
      have hsent := phase2CheckCb_sent hrun
      have hone : Reaches act (Action.Among i Q) σ (σ.setLeader i t) :=
        phase2Timer_reaches leader hrun
      have hnext := cfg.ballotNext_of_fits nonneg (by omega)
      have hpos := cfg.maxProposers_pos
      have hleader := setLeader_leader σ i t
      by_cases above : top < cfg.ballotNext (l.slot cfg l.currentIid).ballot
      · exact ⟨_, _, hone, above, rfl, setLeader_toAcceptors leader hsent,
          ⟨t, hleader, hpolls⟩, packet, leader_toAcceptors hleader hpacket, hprepared⟩
      · have hballot : (t.slot cfg t.currentIid).ballot =
            (l.slot cfg l.currentIid).ballot + cfg.maxProposers := by
          rw [hcurrent, hpolls.ballot_eq, hnext]
        have hholds : t.Holds cfg :=
          ⟨by rw [hcurrent]; exact hpolls.iid_eq, .inl (by rw [hcurrent]; exact hpolls.pending)⟩
        obtain ⟨τ, ballot, hlater, habove, hτ⟩ := ih _ (by omega) hleader hholds
          (hcurrent.trans hp2.symm) (by omega) (by omega) rfl
        rw [hcurrent] at hτ
        exact ⟨τ, ballot, hone.trans hlater, habove, hτ.of_setLeader leader hsent⟩

theorem exists_prepared_above {top : Int} (fits : top + cfg.maxProposers ≤ 2147483647)
    (leader : (σ.processes i).leader = some l) (holds : l.Holds cfg)
    (nonneg : 0 ≤ (l.slot cfg l.currentIid).ballot)
    (low : (l.slot cfg l.currentIid).ballot ≤ top) :
    ∃ τ ballot, Reaches act (Action.Among i Q) σ τ ∧ top < ballot ∧
      Prepared σ τ i l.currentIid ballot := by
  by_cases stuck : l.currentIid = l.p2CurrentIid
  · exact exists_prepared_above_of_stuck fits leader holds stuck nonneg low
  · -- the first check only notes that the instance is still the same at the second
    have hrun : phase2CheckCb cfg l = some { l with p2CurrentIid := l.currentIid } := if_neg stuck
    obtain ⟨τ, ballot, hlater, habove, hτ⟩ := exists_prepared_above_of_stuck
      (l := { l with p2CurrentIid := l.currentIid }) fits (setLeader_leader σ i _)
      ⟨holds.iid_eq, holds.opened⟩ rfl nonneg low
    exact ⟨τ, ballot, (phase2Timer_reaches leader hrun).trans hlater, habove,
      hτ.of_setLeader leader (List.Subset.refl _)⟩

/-- These acceptors have promised, and the leader has heard of it. -/
structure Polled (σ₀ σ : SystemState D) (i : Fin D.processes) (iid ballot : Int)
    (done : List (Fin cfg.nOfAcceptors)) : Prop where
  kept : ∀ a, a ∉ done → σ.acceptors a = σ₀.acceptors a
  promised : ∀ a ∈ done, (σ.acceptors a).Holds cfg iid ballot
  sent : σ₀.toAcceptors ⊆ σ.toAcceptors
  leader : ∃ l, (σ.processes i).leader = some l ∧
    ((done.length : Int) < cfg.quorum → l.Polls cfg iid ballot (done.map Fin.val)) ∧
    (cfg.quorum ≤ done.length → ∃ packet ∈ l.sent, packet.Proposes iid ballot)

theorem Polled.ask {done : List (Fin cfg.nOfAcceptors)} (h : Polled σ₀ σ i iid ballot done)
    (nonneg : 0 ≤ ballot) {packet : PaxosMsg} (sent : packet ∈ σ₀.toAcceptors)
    (prepared : packet.prepared = [{ iid := iid, ballot := ballot }])
    (short : (done.length : Int) < cfg.quorum) {a : Fin cfg.nOfAcceptors} (fresh : a ∉ done)
    (member : a ∈ Q) (acceptorId : (σ₀.acceptors a).acceptorId = (a : Nat))
    (cached : (σ₀.acceptors a).evicted cfg iid = false)
    (higher : ((σ₀.acceptors a).slot cfg iid).iid = iid →
      ((σ₀.acceptors a).slot cfg iid).ballot < ballot) :
    ∃ τ, Reaches act (Action.Among i Q) σ τ ∧ Polled σ₀ τ i iid ballot (done ++ [a]) := by
  obtain ⟨l, hl, hpolls, -⟩ := h.leader
  obtain ⟨t, hrun, hholds, answer, hanswer, batch, p, hdata, halone, hid, hpiid, hpballot⟩ :=
    prepare_answered (D.disk a) prepared cached higher
  rw [← h.kept a fresh] at hrun
  have hself : (σ.setAcceptor a t).acceptors a = t := Function.update_self _ _ _
  have hleader : ((σ.setAcceptor a t).processes i).leader = some l := hl
  have htell := receive_reaches (Q := Q) hleader
    (mem_fromAcceptors.mpr ⟨a, by rw [hself]; exact hanswer⟩) hdata
  obtain ⟨hmore, hquorum⟩ := (hpolls short).hear nonneg halone (hid.trans acceptorId) hpiid hpballot
    (fun hmem => fresh (by simpa [Fin.val_inj] using hmem))
  have hpromised : ∀ b ∈ done ++ [a], ((σ.setAcceptor a t).acceptors b).Holds cfg iid ballot :=
    setAcceptor_all (P := fun s => s.Holds cfg iid ballot) h.promised hholds
  refine ⟨_, (acceptor_reaches member (h.sent sent) hrun).trans htell,
    setAcceptor_kept h.kept a t, hpromised, ?_, ?_⟩
  · exact List.Subset.trans h.sent
      (setLeader_toAcceptors hleader (leaderHandlePromiseMsg_sent cfg l batch))
  · refine ⟨_, setLeader_leader _ i _, ?_, ?_⟩
    · simpa using hmore
    · simpa using hquorum

/-- A quorum promises, one acceptor after the other, and the leader answers. -/
theorem exists_polled (prepared : Prepared σ₀ σ i iid ballot) (nonneg : 0 ≤ ballot)
    {acceptors : List (Fin cfg.nOfAcceptors)} (distinct : acceptors.Nodup)
    (quorum : (acceptors.length : Int) = cfg.quorum) (members : ∀ a ∈ acceptors, a ∈ Q)
    (acceptorId : ∀ a, (σ₀.acceptors a).acceptorId = (a : Nat))
    (cached : ∀ a ∈ acceptors, (σ₀.acceptors a).evicted cfg iid = false)
    (higher : ∀ a ∈ acceptors, ((σ₀.acceptors a).slot cfg iid).iid = iid →
      ((σ₀.acceptors a).slot cfg iid).ballot < ballot) :
    ∃ τ, Reaches act (Action.Among i Q) σ τ ∧ Polled σ τ i iid ballot acceptors := by
  obtain ⟨l, hl, hpolls⟩ := prepared.leader
  obtain ⟨packet, hsent, hprepared⟩ := prepared.packet
  refine Reaches.each distinct (fun done τ => Polled σ τ i iid ballot done) ?_ ?_
  · intro done a τ hmem hfresh hshort hpolled
    have hkept : σ.acceptors a = σ₀.acceptors a := congrFun prepared.acceptors a
    refine hpolled.ask nonneg hsent hprepared (by omega) hfresh (members a hmem) ?_ ?_ ?_
    · rw [hkept]
      exact acceptorId a
    · rw [hkept]
      exact cached a hmem
    · rw [hkept]
      exact higher a hmem
  · have hpos := cfg.quorum_pos
    exact ⟨fun _ _ => rfl, nofun, List.Subset.refl _, l, hl, fun _ => hpolls,
      fun reached => absurd reached (by simp; omega)⟩

/-- These acceptors have accepted, and no process has moved. -/
structure Accepted (σ₀ σ : SystemState D) (m : AcceptMsg)
    (done : List (Fin cfg.nOfAcceptors)) : Prop where
  processes : σ.processes = σ₀.processes
  kept : ∀ a, a ∉ done → σ.acceptors a = σ₀.acceptors a
  logged : ∀ a ∈ done, LogLine.acceptApplied m ∈ (σ.acceptors a).log

/-- If each of these acceptors can be brought to accept, all of them can. -/
theorem exists_accepted_of_each {m : AcceptMsg} {acceptors : List (Fin cfg.nOfAcceptors)}
    (distinct : acceptors.Nodup)
    (each : ∀ τ : SystemState D, ∀ a ∈ acceptors, τ.toAcceptors = σ.toAcceptors →
      τ.acceptors a = σ.acceptors a → ∃ t, Reaches act (Action.Among i Q) τ (τ.setAcceptor a t) ∧
        LogLine.acceptApplied m ∈ t.log) :
    ∃ τ, Reaches act (Action.Among i Q) σ τ ∧ Accepted σ τ m acceptors := by
  refine Reaches.each distinct (fun done τ => Accepted σ τ m done) ?_
    ⟨rfl, fun _ _ => rfl, nofun⟩
  intro done a τ hmem hfresh _ haccepted
  have hsent : τ.toAcceptors = σ.toAcceptors := by
    rw [SystemState.toAcceptors, haccepted.processes]
    rfl
  obtain ⟨t, hreaches, hlogged⟩ := each τ a hmem hsent (haccepted.kept a hfresh)
  exact ⟨_, hreaches, haccepted.processes, setAcceptor_kept haccepted.kept a t,
    setAcceptor_all (P := fun s => LogLine.acceptApplied m ∈ s.log) haccepted.logged hlogged⟩

theorem accept_reaches {a : Fin cfg.nOfAcceptors} (member : a ∈ Q)
    (promised : (σ.acceptors a).Holds cfg iid ballot) (low : cfg.minBallot ≤ ballot)
    {m : AcceptMsg} (sent : Sends σ.toAcceptors m) (own : m.iid = iid)
    (same : m.ballot = ballot) :
    ∃ t, Reaches act (Action.Among i Q) σ (σ.setAcceptor a t) ∧
      LogLine.acceptApplied m ∈ t.log := by
  obtain ⟨packet, hpacket, hdata⟩ := sent
  refine ⟨handleAccept cfg (D.disk a) (σ.acceptors a) m, acceptor_reaches member hpacket ?_,
    promised.accepts own same low⟩
  rw [handleMessage, hdata]

theorem anyval_reaches {a : Fin cfg.nOfAcceptors} (member : a ∈ Q)
    (promised : (σ.acceptors a).Holds cfg iid ballot) {packet : PaxosMsg}
    (sent : packet ∈ σ.toAcceptors) {av : AnyvalMsg} (data : packet.data = .anyval av)
    (alone : av.ids.take av.count.toNat = [iid]) (same : av.ballot = ballot)
    {m : AcceptMsg} (tried : Sends σ.toAcceptors m) (own : m.iid = iid) :
    ∃ t, Reaches act (Action.Among i Q) σ (σ.setAcceptor a t) ∧
      LogLine.acceptApplied m ∈ t.log := by
  obtain ⟨client, hclient, hm⟩ := tried
  obtain ⟨u, hu, hopen⟩ := promised.opens (D.disk a) data alone same
  have hself : (σ.setAcceptor a u).acceptors a = u := Function.update_self _ _ _
  have hopened : Reaches act (Action.Among i Q) σ (σ.setAcceptor a u) :=
    acceptor_reaches member sent hu
  have hstill : client ∈ (σ.setAcceptor a u).toAcceptors := hclient
  have haccepted : Reaches act (Action.Among i Q) (σ.setAcceptor a u)
      ((σ.setAcceptor a u).setAcceptor a (handleAccept cfg (D.disk a) u m)) := by
    refine acceptor_reaches member hstill ?_
    rw [handleMessage, hm, hself]
  refine ⟨handleAccept cfg (D.disk a) u m, ?_, hopen m own⟩
  simpa [SystemState.setAcceptor] using hopened.trans haccepted

/-- Once the leader has answered, the quorum accepts. -/
theorem exists_accepted {acceptors : List (Fin cfg.nOfAcceptors)} (distinct : acceptors.Nodup)
    (members : ∀ a ∈ acceptors, a ∈ Q) {packet : PaxosMsg} (sent : packet ∈ σ.toAcceptors)
    (proposes : packet.Proposes iid ballot)
    (promised : ∀ a ∈ acceptors, (σ.acceptors a).Holds cfg iid ballot)
    (low : cfg.minBallot ≤ ballot) {m : AcceptMsg} (tried : Sends σ.toAcceptors m)
    (own : m.iid = iid) :
    ∃ τ m', Reaches act (Action.Among i Q) σ τ ∧ m'.iid = iid ∧ Accepted σ τ m' acceptors := by
  cases proposes with
  | inl accept =>
      obtain ⟨m', hdata, hiid, hballot⟩ := accept
      obtain ⟨τ, hreaches, haccepted⟩ := exists_accepted_of_each (i := i) (Q := Q) (m := m')
        distinct fun τ a hmem hsent hkept =>
          accept_reaches (members a hmem) (hkept ▸ promised a hmem) low
            ⟨packet, hsent ▸ sent, hdata⟩ hiid hballot
      exact ⟨τ, m', hreaches, hiid, haccepted⟩
  | inr anyval =>
      obtain ⟨av, hdata, halone, hballot⟩ := anyval
      obtain ⟨τ, hreaches, haccepted⟩ := exists_accepted_of_each (i := i) (Q := Q) (m := m)
        distinct fun τ a hmem hsent hkept =>
          anyval_reaches (members a hmem) (hkept ▸ promised a hmem) (hsent ▸ sent) hdata halone
            hballot (hsent ▸ tried) own
      exact ⟨τ, m, hreaches, own, haccepted⟩

/-- From every state of a run the leader and any quorum of acceptors that has the current
instance in its slots can finish it by themselves, when someone has tried to. -/
theorem current_instance_obstruction_free {cfg : Config} {D : Deployment cfg}
    (puts : ∀ a, (D.disk a).PutsSucceed) {σ : SystemState D}
    (h : Reachable (system D) NoOverflow σ) {i : Fin D.processes} {l : LeaderState}
    (leader : (σ.processes i).leader = some l) (holds : l.Holds cfg)
    {Q : Finset (Fin cfg.nOfAcceptors)} (quorum : cfg.quorum ≤ Q.card)
    (cached : ∀ a ∈ Q, (σ.acceptors a).evicted cfg l.currentIid = false) {top : Int}
    (fits : top + cfg.maxProposers ≤ 2147483647)
    (low : (l.slot cfg l.currentIid).ballot ≤ top)
    (seen : ∀ a ∈ Q, ((σ.acceptors a).slot cfg l.currentIid).iid = l.currentIid →
      ((σ.acceptors a).slot cfg l.currentIid).ballot ≤ top)
    {m : AcceptMsg} (tried : Sends σ.toAcceptors m) (own : m.iid = l.currentIid) :
    ∃ τ m', Reaches act (Action.Among i Q) σ τ ∧ m'.iid = l.currentIid ∧ τ.Chosen m' := by
  have hok := system_ok (noOverflow_keepsOk puts) h
  have hsound := ((hok.processes i).leader l leader).2
  have hused : (l.slot cfg l.currentIid).status ≠ .p1New := by
    cases holds.opened with
    | inl pending => rw [pending]; decide
    | inr finished => rw [finished]; decide
  have hrecord := hsound.records (cfg.proposerArraySize.index l.currentIid)
  have hnonneg : 0 ≤ (l.slot cfg l.currentIid).ballot := hrecord.ballot_nonneg
  have hmin : cfg.minBallot ≤ (l.slot cfg l.currentIid).ballot := hrecord.ballot_low hused
  have hpos := cfg.quorum_pos
  obtain ⟨members, hsub, hcard⟩ := Finset.exists_subset_card_eq (s := Q) (n := cfg.quorum.toNat)
    (by omega)
  have hmembers : ∀ a ∈ members.toList, a ∈ Q := fun a ha => hsub (Finset.mem_toList.mp ha)
  have hlength : (members.toList.length : Int) = cfg.quorum := by
    rw [Finset.length_toList]
    omega
  obtain ⟨σ₁, ballot, hfirst, habove, hprepared⟩ :=
    exists_prepared_above (Q := Q) fits leader holds hnonneg low
  obtain ⟨σ₂, hsecond, hpolled⟩ := exists_polled (Q := Q) hprepared (by omega)
    members.nodup_toList hlength hmembers hok.acceptorId
    (fun a ha => cached a (hmembers a ha)) fun a ha held => by
      have := seen a (hmembers a ha) held
      omega
  obtain ⟨l', hl', -, hanswered⟩ := hpolled.leader
  obtain ⟨packet, hpacket, hproposes⟩ := hanswered hlength.ge
  have hsends : Sends σ₂.toAcceptors m :=
    tried.mono (List.Subset.trans hprepared.sent hpolled.sent)
  obtain ⟨τ, m', hthird, hiid, haccepted⟩ := exists_accepted (Q := Q) (i := i) members.nodup_toList
    hmembers (leader_toAcceptors hl' hpacket) hproposes hpolled.promised (by omega) hsends own
  exact ⟨τ, m', (hfirst.trans hsecond).trans hthird, hiid, members, hcard.ge, fun a ha =>
    haccepted.logged a (Finset.mem_toList.mpr ha)⟩

end System

/-! ### A collision -/

/-- Two of the three acceptors accept the value of proposer 1, the third that of proposer 2. -/
def collided : List (Action narrowFive) :=
  openRound (0 : Fin 5) 20 0 ++ [.submit (1 : Fin 5) [7], .submit (2 : Fin 5) [8]] ++
    [.acceptor (0 : Fin 3) (acceptPacket sevenAccept),
      .acceptor (1 : Fin 3) (acceptPacket sevenAccept),
      .acceptor (2 : Fin 3) (acceptPacket eightAccept)]

theorem collided_fits : Meets act NoOverflow (systemStart narrowFive) collided := by
  decide +kernel

theorem current_instance_obstruction_free_collided :
    ∃ σ, collided.foldlM act (systemStart narrowFive) = some σ ∧
      (¬ ∀ a, LogLine.acceptApplied sevenAccept ∈ (σ.acceptors a).log) ∧
      (¬ ∀ a, LogLine.acceptApplied eightAccept ∈ (σ.acceptors a).log) ∧
      ∃ τ m, Reaches act (Action.Among (0 : Fin 5) Finset.univ) σ τ ∧ m.iid = 0 ∧
        τ.Chosen m := by
  have hrun : ∃ σ, collided.foldlM act (systemStart narrowFive) = some σ ∧
      (¬ ∀ a, LogLine.acceptApplied sevenAccept ∈ (σ.acceptors a).log) ∧
      (¬ ∀ a, LogLine.acceptApplied eightAccept ∈ (σ.acceptors a).log) ∧
      acceptPacket sevenAccept ∈ σ.toAcceptors ∧
      (∀ a, (σ.acceptors a).evicted narrow 0 = false) ∧
      (∀ a, ((σ.acceptors a).slot narrow 0).ballot ≤ 20) ∧
      ∃ l, (σ.processes (0 : Fin 5)).leader = some l ∧ l.currentIid = 0 ∧
        (l.slot narrow 0).iid = 0 ∧ (l.slot narrow 0).status = .p1Finished ∧
        (l.slot narrow 0).ballot ≤ 20 := by
    decide +kernel
  obtain ⟨σ, run, hseven, height, hsent, hcached, hseen, l, hleader, hcurrent, hiid, hstatus,
    hlow⟩ := hrun
  have hreach : Reachable (system narrowFive) NoOverflow σ :=
    Reachable.run (fun _ _ _ move => move) (.init rfl) collided_fits run
  have hfinish := @current_instance_obstruction_free narrow narrowFive
    (fun _ => quietDisk_putsSucceed) σ hreach (0 : Fin 5) l hleader
  rw [hcurrent] at hfinish
  have hholds : l.Holds narrow := by
    refine ⟨?_, .inr ?_⟩ <;> rw [hcurrent]
    · exact hiid
    · exact hstatus
  exact ⟨σ, run, hseven, height, hfinish hholds (Q := Finset.univ) (by decide)
    (fun a _ => hcached a) (by decide) hlow (fun a _ _ => hseen a)
    ⟨acceptPacket sevenAccept, hsent, rfl⟩ rfl⟩

end LibFastPaxos
