import LibFastPaxos.AcceptorValues

/-!
Retransmitted learns. A learn takes `ballot` from a field that promises overwrite
and `proposer_id` from a field that the disk image lacks, and every record found
on disk is answered. The answer is the learn of the last accept exactly when
none of the three shows.
-/

namespace LibFastPaxos

open Transition History

def AcceptMsg.learnPacket (amsg : AcceptMsg) (acceptorId : Int) : PaxosMsg where
  size := sizeofLearnMsg + amsg.valueSize
  data := .learn (amsg.learn acceptorId)

/-- `handle_lsync` repeats the learn of the last accept, or sends nothing without one. -/
def LsyncFaithful (cfg : Config) (env : DiskEnv) (s : AcceptorState) (iid : Int) : Prop :=
  match lastAccept iid s.log with
  | some m => m.learnPacket s.acceptorId ∈ s.sent ∧
      (handleLsync cfg env s iid).sent = m.learnPacket s.acceptorId :: s.sent
  | none => (handleLsync cfg env s iid).sent = s.sent

/-- The record answered holds an accepted value and no later promise, and if it comes
from disk, its uninitialised `proposer_id` happens to be the proposer's. -/
def LsyncSound (cfg : Config) (env : DiskEnv) (s : AcceptorState) (iid : Int) : Prop :=
  ∀ r, readRecord cfg env s iid = some r → r.value.isSome →
    r.valueBallot ≠ -1 ∧ r.ballot = r.valueBallot ∧
      (s.evicted cfg iid = true → ∀ m, lastAccept iid s.log = some m →
        r.proposerId = m.proposerId)

/-- What the learns need beyond the values. -/
structure LearnsKept (s : AcceptorState) : Prop where
  owner : ∀ k m, 0 ≤ (s.acceptorArray k).iid → (s.acceptorArray k).value.isSome →
    lastAccept (s.acceptorArray k).iid s.log = some m →
    (s.acceptorArray k).proposerId = m.proposerId
  sent : ∀ m, LogLine.acceptApplied m ∈ s.log → m.learnPacket s.acceptorId ∈ s.sent

section Preservation

variable {cfg : Config} {env : DiskEnv} {s t : AcceptorState}

theorem LearnsKept.congr (kept : LearnsKept s) (arr : t.acceptorArray = s.acceptorArray)
    (id : t.acceptorId = s.acceptorId) (log : t.log = s.log) (sent : s.sent ⊆ t.sent) :
    LearnsKept t := by
  constructor
  · intro k m
    rw [arr, log]
    exact kept.owner k m
  · intro m
    rw [log, id]
    intro hm
    exact sent (kept.sent m hm)

/-- Writing back the record of one instance, with one more debug line, keeps the
owners as soon as the new record has the right one. -/
theorem owner_writeBack (env : DiskEnv) (coh : s.Coherent cfg) (kept : LearnsKept s) (iid : Int)
    (r : AcceptorRecord) (hr : r.iid = iid) (line : LogLine)
    (own : s.evicted cfg iid = false → r.value.isSome →
      ∀ m, lastAccept iid (line :: s.log) = some m → r.proposerId = m.proposerId)
    (other : ∀ i, i ≠ iid → line.acceptFor i = none)
    {t : AcceptorState} (arr : t.acceptorArray = (writeBack cfg env s iid r).acceptorArray)
    (log : t.log = line :: s.log) :
    ∀ k m, 0 ≤ (t.acceptorArray k).iid → (t.acceptorArray k).value.isSome →
      lastAccept (t.acceptorArray k).iid t.log = some m →
      (t.acceptorArray k).proposerId = m.proposerId := by
  intro k m
  rw [arr, log]
  cases writeBack_slot cfg env s hr k with
  | inl new =>
      obtain ⟨hk, hev, -⟩ := new
      rw [hk, hr]
      intro _ hv hm
      exact own hev hv m hm
  | inr old =>
      obtain ⟨hk, hnewer⟩ := old
      rw [hk]
      intro hnonneg hv hm
      have hne : (s.acceptorArray k).iid ≠ iid := by
        intro heq
        cases coh.slots k with
        | inl hfree => omega
        | inr hslot =>
            have := hnewer (by rw [← heq]; exact hslot.in_place.symm)
            omega
      rw [lastAccept_cons_of_none (other _ hne)] at hm
      exact kept.owner k m hnonneg hv hm

theorem LearnsKept.consult (kept : LearnsKept s) (iid : Int) : LearnsKept (s.consult cfg iid) :=
  kept.congr (by simp) (by simp) (by simp) (by simp)

theorem LearnsKept.prepare (coh : s.Coherent cfg) (kept : LearnsKept s) {msg : PrepareMsg}
    (wf : msg.WellFormed) :
    LearnsKept (addPromiseToSendBuffer cfg env
      (writeBack cfg env s msg.iid
        (msg.record (blankRecord cfg s msg.iid) (readRecord cfg env s msg.iid)))
      (msg.record (blankRecord cfg s msg.iid) (readRecord cfg env s msg.iid))) := by
  obtain ⟨hiid, -, -, -⟩ := prepare_record_spec env coh wf
  constructor
  · refine owner_writeBack env coh kept msg.iid
      (msg.record (blankRecord cfg s msg.iid) (readRecord cfg env s msg.iid)) hiid
      (.promised (promiseOf
        (msg.record (blankRecord cfg s msg.iid) (readRecord cfg env s msg.iid)))) ?_ ?_ ?_ ?_
    · intro hev hv m hm
      rw [lastAccept_cons_of_none rfl] at hm
      cases hr : readRecord cfg env s msg.iid with
      | none =>
          rw [hr] at hv
          cases hv
      | some r =>
          rw [hr] at hv
          have hslot : msg.iid = (s.slot cfg msg.iid).iid ∧ s.slot cfg msg.iid = r := by
            simpa [readRecord, hev] using hr
          obtain ⟨heq, rfl⟩ := hslot
          have howner := kept.owner (cfg.acceptorArraySize.index msg.iid) m
          simp only [AcceptorState.slot] at heq
          rw [← heq] at howner
          exact howner wf.iid_nonneg hv hm
    · intro i hi
      rfl
    · simp
    · simp [writeBack_frame]
  · intro m hm
    have hm : LogLine.acceptApplied m ∈ s.log := by simpa [writeBack_frame] using hm
    have hsent : m.learnPacket s.acceptorId ∈ (writeBack cfg env s msg.iid
        (msg.record (blankRecord cfg s msg.iid) (readRecord cfg env s msg.iid))).sent := by
      rw [(writeBack_frame _).2.2.2]
      exact kept.sent m hm
    simpa [writeBack_frame] using sent_subset_addPromise _ _ _ _ hsent

theorem LearnsKept.accept (coh : s.Coherent cfg) (kept : LearnsKept s) {amsg : AcceptMsg}
    (wf : amsg.WellFormed) {r : AcceptorRecord}
    (written : r = amsg.record
      (acceptBase (blankRecord cfg s amsg.iid) (readRecord cfg env s amsg.iid))) :
    LearnsKept (sendLearnMessage
      ((diskForceSyncrony cfg env (writeBack cfg env s amsg.iid r)).emit
        (.log (.acceptApplied amsg))) r) := by
  subst written
  constructor
  · refine owner_writeBack env coh kept amsg.iid (amsg.record
      (acceptBase (blankRecord cfg s amsg.iid) (readRecord cfg env s amsg.iid))) rfl
      (.acceptApplied amsg) ?_ ?_ ?_ ?_
    · intro _ _ m hm
      rw [lastAccept_cons_self] at hm
      cases hm
      rfl
    · intro i hi
      simp [LogLine.acceptFor, Ne.symm hi]
    · simp
    · simp [writeBack_frame, Effect.logged?]
  · intro m hm
    have hm : m = amsg ∨ LogLine.acceptApplied m ∈ s.log := by
      simpa [writeBack_frame, Effect.logged?] using hm
    cases hm with
    | inl heq =>
        subst heq
        simp [writeBack_frame, AcceptMsg.learnPacket, AcceptMsg.learn, learnOf,
          AcceptMsg.record, memcpy_of_length wf.valueSize_eq]
    | inr hold =>
        have hsent := kept.sent m hold
        simp [writeBack_frame, Effect.sent?, hsent]

theorem LearnsKept.anyval (coh : s.Coherent cfg) (kept : LearnsKept s) (iid ballot : Int) :
    LearnsKept ((writeBack cfg env s iid
      (anyvalRecord ((readRecord cfg env s iid).getD (blankRecord cfg s iid)) iid ballot)).emit
        (.log (.anyvalApplied iid ballot))) := by
  constructor
  · refine owner_writeBack env coh kept iid (anyvalRecord
      ((readRecord cfg env s iid).getD (blankRecord cfg s iid)) iid ballot) rfl
      (.anyvalApplied iid ballot) ?_ ?_ ?_ ?_
    · intro _ hv
      cases hv
    · intro i hi
      rfl
    · simp
    · simp [writeBack_frame, Effect.logged?]
  · intro m hm
    have hm : LogLine.acceptApplied m ∈ s.log := by
      simpa [writeBack_frame, Effect.logged?] using hm
    have hsent := kept.sent m hm
    simp [writeBack_frame, Effect.sent?, hsent]

theorem LearnsKept.step {op : AcceptorOp} (coh : s.Coherent cfg) (kept : LearnsKept s)
    (wf : op.WellFormed) (run : handleOp cfg env s op = some t) : LearnsKept t := by
  cases handleOp_branch run with
  | granted granted => exact kept.prepare coh wf
  | applied applied => exact kept.accept coh wf rfl
  | @opened iid ballot applied => exact kept.anyval coh iid ballot
  | answered read value => exact kept.congr (by simp) (by simp) (by simp) (by simp)
  | refused iid => exact kept.consult iid

theorem acceptorStart_learnsKept (id : Int) : LearnsKept (acceptorStart id) := by
  constructor
  · intro k m hk
    cases hk
  · intro m hm
    cases hm

theorem learns_kept (puts : env.PutsSucceed) {cond : AcceptorState → AcceptorOp → Prop}
    (h : Reachable (acceptorSystem cfg env) (MessageMeets cfg env cond) s) : LearnsKept s := by
  suffices s.Coherent cfg ∧ LearnsKept s from this.2
  refine acceptor_invariant (fun s => s.Coherent cfg ∧ LearnsKept s) ?_ ?_ ?_ ?_ h
  · intro id
    exact ⟨acceptorStart_coherent cfg id, acceptorStart_learnsKept id⟩
  · intro s ⟨coh, kept⟩
    exact ⟨coh.congr (by simp) (by simp), kept.congr (by simp) (by simp) (by simp) (by simp)⟩
  · intro s op t wf ⟨coh, kept⟩ _ run
    exact ⟨(handleOp_outcome coh puts wf run).1, kept.step coh wf run⟩
  · intro s ⟨coh, kept⟩ _
    exact ⟨coh.congr (by simp) (by simp), kept.congr (by simp) (by simp) (by simp) (by simp)⟩

end Preservation

section Answers

variable {cfg : Config} {env : DiskEnv} {s : AcceptorState} {iid : Int}

theorem lsync_sent :
    (handleLsync cfg env s iid).sent =
      match readRecord cfg env s iid with
      | none => s.sent
      | some r => if r.value.isSome then learnPacket s.acceptorId r :: s.sent else s.sent := by
  rw [handleLsync_eq]
  cases readRecord cfg env s iid with
  | none => simp
  | some r =>
      dsimp only
      split <;> simp [learnPacket]

/-- The packet built from a record that holds an accept is the accept's learn, up to
the two fields that the record may have wrong. -/
theorem learnPacket_eq_iff (inv : Faithful cfg s) (nonneg : 0 ≤ iid) {r : AcceptorRecord}
    (read : readRecord cfg env s iid = some r) {m : AcceptMsg}
    (last : lastAccept iid s.log = some m) :
    learnPacket s.acceptorId r = m.learnPacket s.acceptorId ↔
      r.ballot = m.ballot ∧ r.proposerId = m.proposerId := by
  have hread := inv.coherent.read_some nonneg read
  have hheld := inv.kept.held iid _ hread.stored
  rw [last] at hheld
  obtain ⟨-, hsize, hvalue⟩ := hheld
  have hsize : r.valueSize = m.valueSize := hsize
  have hvalue : memcpy (r.value.getD []) r.valueSize = m.value := hvalue
  have hiid : r.iid = m.iid := hread.iid_eq.trans (lastAccept_mem last).2.symm
  have hmem : memcpy (r.value.getD []) m.valueSize = m.value := by rw [← hsize]; exact hvalue
  simp only [learnPacket, AcceptMsg.learnPacket, learnOf, AcceptMsg.learn, hsize, hiid, hmem,
    PaxosMsg.mk.injEq, PaxosData.learn.injEq, LearnMsg.mk.injEq, true_and, and_true]

theorem slot_owner (learns : LearnsKept s) (nonneg : 0 ≤ iid) {r : AcceptorRecord}
    (read : readRecord cfg env s iid = some r) (resident : s.evicted cfg iid = false)
    (value : r.value.isSome) {m : AcceptMsg} (last : lastAccept iid s.log = some m) :
    r.proposerId = m.proposerId := by
  have hslot : iid = (s.slot cfg iid).iid ∧ s.slot cfg iid = r := by
    simpa [readRecord, resident] using read
  obtain ⟨heq, rfl⟩ := hslot
  have howner := learns.owner (cfg.acceptorArraySize.index iid) m
  simp only [AcceptorState.slot] at heq
  rw [← heq] at howner
  exact howner nonneg value last

/-- A record read from disk never lacks a value. -/
theorem value_of_evicted {r : AcceptorRecord} (read : readRecord cfg env s iid = some r)
    (evicted : s.evicted cfg iid = true) : r.value.isSome = true := by
  simp only [readRecord, evicted, if_true, diskLookupRecord, Option.map_eq_some_iff] at read
  obtain ⟨flat, -, rfl⟩ := read
  rfl

/-- Only a record in the slot can lack a value, and then no accept was applied. -/
theorem blank_of_no_value (inv : Faithful cfg s) (nonneg : 0 ≤ iid) {r : AcceptorRecord}
    (read : readRecord cfg env s iid = some r) (blank : ¬ r.value.isSome) :
    lastAccept iid s.log = none := by
  have hread := inv.coherent.read_some nonneg read
  have hheld := inv.kept.held iid _ hread.stored
  cases hev : s.evicted cfg iid with
  | true => exact absurd (value_of_evicted read hev) blank
  | false =>
      have hb : r.valueBallot = -1 := by
        have := hread.value hev
        simpa [blank] using this
      cases last : lastAccept iid s.log with
      | none => rfl
      | some m =>
          rw [last] at hheld
          have hmb : r.valueBallot = m.ballot := hheld.1
          have := (inv.accepts m (lastAccept_mem last).1).ballot_nonneg
          omega

end Answers

/-- In a run that blanks no accepted value, an lsync is answered faithfully exactly when
the record consulted for it is sound. -/
theorem lsync_answers_last_accept_iff {cfg : Config} {env : DiskEnv} (puts : env.PutsSucceed)
    {s : AcceptorState} {iid : Int} (nonneg : 0 ≤ iid)
    (h : Reachable (acceptorSystem cfg env) (MessageMeets cfg env (KeepsValue cfg env)) s) :
    LsyncFaithful cfg env s iid ↔ LsyncSound cfg env s iid := by
  have inv := acceptor_faithful puts h
  have learns := learns_kept puts h
  simp only [LsyncFaithful, LsyncSound]
  rw [lsync_sent]
  cases read : readRecord cfg env s iid with
  | none =>
      rw [inv.kept.absent iid (inv.coherent.read_none read)]
      simp
  | some r =>
      have hread := inv.coherent.read_some nonneg read
      have hheld := inv.kept.held iid _ hread.stored
      by_cases hv : r.value.isSome
      · cases last : lastAccept iid s.log with
        | none =>
            rw [last] at hheld
            have hb : r.valueBallot = -1 := hheld.1
            simp [hv, hb]
        | some m =>
            obtain ⟨hmem, hmiid⟩ := lastAccept_mem last
            have hb : r.valueBallot = m.ballot := by
              rw [last] at hheld
              exact hheld.1
            have hm := (inv.accepts m hmem).ballot_nonneg
            have howner : s.evicted cfg iid = false → r.proposerId = m.proposerId :=
              fun hev => slot_owner learns nonneg read hev hv last
            simp only [hv, if_true, List.cons.injEq, and_true,
              learnPacket_eq_iff inv nonneg read last, learns.sent m hmem, true_and,
              Option.some.injEq, forall_eq', true_imp_iff, hb]
            constructor
            · intro ⟨hballot, hid⟩
              exact ⟨by omega, hballot, fun _ => hid⟩
            · intro ⟨_, hballot, hid⟩
              cases hev : s.evicted cfg iid with
              | false => exact ⟨hballot, howner hev⟩
              | true => exact ⟨hballot, hid hev⟩
      · have hblank := blank_of_no_value inv nonneg read hv
        rw [hblank]
        simp [hv]

def acceptedRun : List PaxosMsg := [acceptPacket ⟨0, 20, 1, 3, [7]⟩]

theorem acceptedRun_keepsValue :
    RunMeets .shipped quietDisk (KeepsValue .shipped quietDisk) (acceptorStart 0) acceptedRun :=
  ⟨⟨by decide, ⟨trivial, fun _ _ => trivial⟩⟩, fun _ _ => trivial⟩

theorem lsync_answers_last_accept_accepted :
    ∃ s, runMessages .shipped quietDisk (acceptorStart 0) acceptedRun = some s ∧
      LsyncFaithful .shipped quietDisk s 0 := by
  have run : runMessages .shipped quietDisk (acceptorStart 0) acceptedRun = some _ := rfl
  refine ⟨_, run, (lsync_answers_last_accept_iff quietDisk_putsSucceed (by decide)
    (reachable_run (.init ⟨0, rfl⟩) acceptedRun_keepsValue run)).mpr ?_⟩
  intro r hr hv
  obtain rfl := Option.some.inj hr
  exact ⟨by decide, rfl, fun hev => absurd hev (by decide)⟩

/-- A prepare overwrites the ballot that the learn is built from. -/
def promisedRun : List PaxosMsg := [acceptPacket ⟨0, 20, 1, 3, [7]⟩, preparePacket [⟨0, 30⟩]]

theorem promisedRun_misreports_ballot :
    (∀ msg ∈ promisedRun, msg.data.WellFormed) ∧
      ∃ s, runMessages .shipped quietDisk (acceptorStart 0) promisedRun = some s ∧
        ¬ LsyncFaithful .shipped quietDisk s 0 := by
  refine ⟨by decide, _, rfl, fun faithful => ?_⟩
  have hsent := List.head_eq_of_cons_eq faithful.2
  exact absurd hsent (by decide)

end LibFastPaxos
