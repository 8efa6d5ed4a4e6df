import LibFastPaxos.AcceptorRuns

/-!
Instances of which neither the slot nor the disk holds a record: they are older than
the occupant of their slot, and nothing of them was ever stored. `handle_prepare` and
`handle_accept` create a record for such an instance, and `handle_lsync` ignores it;
`handle_anyval` goes on with the NULL pointer of the failed lookup.
-/

namespace LibFastPaxos

open Transition

def AcceptorOp.iid : AcceptorOp → Int
  | .prepare msg => msg.iid
  | .accept amsg => amsg.iid
  | .lsync iid => iid
  | .anyval iid _ => iid

/-- The instance is older than what its slot holds, and the disk has no record of it. -/
def AcceptorState.Missing (cfg : Config) (s : AcceptorState) (iid : Int) : Prop :=
  iid < (s.slot cfg iid).iid ∧ s.accDb (iid + 1) = none

instance (cfg : Config) (s : AcceptorState) (iid : Int) : Decidable (s.Missing cfg iid) :=
  inferInstanceAs (Decidable (_ ∧ _))

/-- What becomes of a message for a missing instance: it is ignored after the lookup, or
handled on a record that was created for it and is not one of the array. -/
inductive WorksFresh (cfg : Config) (env : DiskEnv) (s : AcceptorState) :
    AcceptorOp → AcceptorState → Prop where
  | ignored {op : AcceptorOp} : WorksFresh cfg env s op (s.emit (.get op.iid))
  | promised {msg : PrepareMsg} (fresh : AcceptorRecord) :
      WorksFresh cfg env s (.prepare msg)
        (addPromiseToSendBuffer cfg env
          (diskUpdateRecord cfg env (s.emit (.get msg.iid)) (msg.record fresh none))
          (msg.record fresh none))
  | accepted {amsg : AcceptMsg} (fresh : AcceptorRecord) (noValue : fresh.value = none) :
      WorksFresh cfg env s (.accept amsg)
        (sendLearnMessage
          ((diskForceSyncrony cfg env
            (diskUpdateRecord cfg env (s.emit (.get amsg.iid)) (amsg.record fresh))).emit
              (.log (.acceptApplied amsg)))
          (amsg.record fresh))
  | opened {iid ballot : Int} (fresh : AcceptorRecord) (noValue : fresh.value = none) :
      WorksFresh cfg env s (.anyval iid ballot)
        ((diskUpdateRecord cfg env (s.emit (.get iid)) (anyvalRecord fresh iid ballot)).emit
          (.log (.anyvalApplied iid ballot)))

/-- The operation runs, and for a missing instance it works on a record of its own. -/
def WorksOnRecord (cfg : Config) (env : DiskEnv) (s : AcceptorState) (op : AcceptorOp) : Prop :=
  ∃ t, handleOp cfg env s op = some t ∧
    (s.Missing cfg op.iid → WorksFresh cfg env s op t)

/-- No anyval names a missing instance. -/
def AnyvalFindsRecord (cfg : Config) (s : AcceptorState) : AcceptorOp → Prop
  | .anyval iid _ => ¬ s.Missing cfg iid
  | .prepare _ | .accept _ | .lsync _ => True

instance (cfg : Config) (s : AcceptorState) : (op : AcceptorOp) →
    Decidable (AnyvalFindsRecord cfg s op)
  | .anyval iid _ => inferInstanceAs (Decidable (¬ s.Missing cfg iid))
  | .prepare _ | .accept _ | .lsync _ => isTrue trivial

section Missing

variable {cfg : Config} {env : DiskEnv} {s : AcceptorState} {iid : Int}

theorem AcceptorState.Missing.evicted (h : s.Missing cfg iid) : s.evicted cfg iid = true :=
  decide_eq_true h.1

theorem AcceptorState.Missing.read_none (h : s.Missing cfg iid) :
    readRecord cfg env s iid = none := by
  simp [readRecord, h.evicted, diskLookupRecord, h.2]

theorem AcceptorState.Missing.consult (h : s.Missing cfg iid) :
    s.consult cfg iid = s.emit (.get iid) :=
  if_pos h.evicted

theorem AcceptorState.Missing.writeBack (h : s.Missing cfg iid) (r : AcceptorRecord) :
    writeBack cfg env s iid r = diskUpdateRecord cfg env (s.emit (.get iid)) r := by
  rw [LibFastPaxos.writeBack, h.consult, recordPtr, if_pos h.evicted]
  rfl

theorem AcceptorState.Missing.blank (h : s.Missing cfg iid) :
    (blankRecord cfg s iid).value = none := by
  rw [blankRecord, if_pos h.evicted]

theorem handleAnyval_eq_none {ballot : Int} :
    handleAnyval cfg env s iid ballot = none ↔ s.Missing cfg iid := by
  constructor
  · intro run
    by_cases present : s.evicted cfg iid = true → readRecord cfg env s iid ≠ none
    · by_cases applied : AnyvalApplied ballot (readRecord cfg env s iid)
      · rw [handleAnyval_applied present applied] at run
        cases run
      · rw [handleAnyval_refused applied] at run
        cases run
    · obtain ⟨newer, missing⟩ : s.evicted cfg iid = true ∧ readRecord cfg env s iid = none := by
        simpa using present
      refine ⟨of_decide_eq_true newer, ?_⟩
      simpa [readRecord, newer, diskLookupRecord] using missing
  · exact fun h => handleAnyval_missing h.evicted h.read_none

theorem AcceptorState.Missing.worksFresh {op : AcceptorOp} (h : s.Missing cfg op.iid)
    (wf : op.WellFormed) {t : AcceptorState} (run : handleOp cfg env s op = some t) :
    WorksFresh cfg env s op t := by
  cases op with
  | prepare msg =>
      have h : s.Missing cfg msg.iid := h
      obtain rfl := Option.some.inj run
      have hnone : readRecord cfg env s msg.iid = none := h.read_none
      have hballot := wf.ballot_nonneg
      rw [handlePrepare_granted (fun _ _ => by omega) (by simp [hnone, PrepareMsg.Granted]), hnone]
      dsimp only
      rw [h.writeBack]
      exact .promised (blankRecord cfg s msg.iid)
  | accept amsg =>
      have h : s.Missing cfg amsg.iid := h
      obtain rfl := Option.some.inj run
      by_cases applied : amsg.Applied cfg (readRecord cfg env s amsg.iid)
      · have hnone : readRecord cfg env s amsg.iid = none := h.read_none
        rw [handleAccept_applied applied, hnone]
        dsimp only
        rw [h.writeBack]
        exact .accepted (blankRecord cfg s amsg.iid) h.blank
      · rw [handleAccept_refused applied, h.consult]
        exact .ignored
  | lsync iid =>
      have h : s.Missing cfg iid := h
      obtain rfl := Option.some.inj run
      have hnone : readRecord cfg env s iid = none := h.read_none
      rw [handleLsync_eq, hnone, h.consult]
      exact .ignored
  | anyval iid ballot =>
      have h : s.Missing cfg iid := h
      have run : handleAnyval cfg env s iid ballot = some t := run
      rw [handleAnyval_eq_none.mpr h] at run
      cases run

theorem worksOnRecord_iff {op : AcceptorOp} (wf : op.WellFormed) :
    WorksOnRecord cfg env s op ↔ AnyvalFindsRecord cfg s op := by
  constructor
  · intro ⟨t, run, _⟩
    cases op with
    | anyval iid ballot =>
        intro missing
        have run : handleAnyval cfg env s iid ballot = some t := run
        rw [handleAnyval_eq_none.mpr missing] at run
        cases run
    | prepare _ | accept _ | lsync _ => trivial
  · intro finds
    have hrun : ∃ t, handleOp cfg env s op = some t := by
      cases op with
      | anyval iid ballot =>
          exact Option.ne_none_iff_exists'.mp fun hnone => finds (handleAnyval_eq_none.mp hnone)
      | prepare _ | accept _ | lsync _ => exact ⟨_, rfl⟩
    obtain ⟨t, run⟩ := hrun
    exact ⟨t, run, fun missing => missing.worksFresh wf run⟩

end Missing

/-! ### Runs -/

/-- The messages are handled to the end, and every operation works on a record. -/
structure NeverNull (cfg : Config) (env : DiskEnv) (s : AcceptorState) (msgs : List PaxosMsg) :
    Prop where
  completes : ∃ t, runMessages cfg env s msgs = some t
  works : RunMeets cfg env (WorksOnRecord cfg env) s msgs

section Runs

variable {cfg : Config} {env : DiskEnv}

/-- No handler of the acceptor works on a missing record, exactly when no anyval arrives for
an instance that is older than its slot's occupant and has no record on disk. -/
theorem never_null_iff (cfg : Config) (env : DiskEnv) (id : Int) {msgs : List PaxosMsg}
    (wf : ∀ msg ∈ msgs, msg.data.WellFormed) :
    NeverNull cfg env (acceptorStart id) msgs ↔
      RunMeets cfg env (AnyvalFindsRecord cfg) (acceptorStart id) msgs := by
  have same : RunMeets cfg env (WorksOnRecord cfg env) (acceptorStart id) msgs ↔
      RunMeets cfg env (AnyvalFindsRecord cfg) (acceptorStart id) msgs := by
    refine Meets.congr (fun s msg hmsg => and_congr_right fun _ => ?_) _
    exact Meets.congr (fun u op hop =>
      worksOnRecord_iff (PaxosData.ops_wellFormed (wf msg hmsg) op hop)) _
  refine ⟨fun h => same.mp h.works, fun finds => ⟨?_, same.mpr finds⟩⟩
  refine Meets.completes (fun s msg meets => ?_) (same.mpr finds)
  obtain ⟨t, run⟩ := Meets.completes (fun u op works => ⟨_, works.choose_spec.1⟩) meets.2
  exact ⟨_, by rw [handleMessage_eq, run]; rfl⟩

end Runs

/-- Instance 1024 takes the slot of instance 0, whose anyval then finds it on disk. -/
def lateAnyval : List PaxosMsg :=
  [preparePacket [⟨0, 20⟩], preparePacket [⟨1024, 20⟩], anyvalPacket 20 [0]]

theorem never_null_late : NeverNull .shipped quietDisk (acceptorStart 0) lateAnyval :=
  (never_null_iff .shipped quietDisk 0 (by decide)).mpr (by decide)

/-- The prepare of instance 0 was lost, and its anyval comes after instance 1024. -/
theorem lostPrepare_null :
    (∀ msg ∈ [preparePacket [⟨1024, 20⟩], anyvalPacket 20 [0]], msg.data.WellFormed) ∧
      ¬ NeverNull .shipped quietDisk (acceptorStart 0)
        [preparePacket [⟨1024, 20⟩], anyvalPacket 20 [0]] := by
  refine ⟨by decide, fun h => ?_⟩
  obtain ⟨t, run⟩ := h.completes
  have hnone : runMessages .shipped quietDisk (acceptorStart 0)
      [preparePacket [⟨1024, 20⟩], anyvalPacket 20 [0]] = none := rfl
  rw [hnone] at run
  cases run

end LibFastPaxos
