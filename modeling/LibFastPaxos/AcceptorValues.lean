import LibFastPaxos.AcceptorRuns

/-!
What an acceptor reports of its accepted values. `apply_anyval` blanks the value
of the record it finds, so promises report the last accept in every run in which
no anyval is applied to a record that holds an accepted value.
-/

namespace LibFastPaxos

open Transition History

def LogLine.acceptFor (iid : Int) : LogLine → Option AcceptMsg
  | .acceptApplied m => if m.iid = iid then some m else none
  | .promised _ | .anyvalApplied _ _ => none

/-- The accept applied most recently for an instance. -/
def lastAccept (iid : Int) (log : List LogLine) : Option AcceptMsg :=
  log.findSome? (LogLine.acceptFor iid)

/-- The value fields of a promise are those of the accept, or blank without one. -/
def PromiseMsg.Reports (p : PromiseMsg) : Option AcceptMsg → Prop
  | some m => p.valueBallot = m.ballot ∧ p.valueSize = m.valueSize ∧ p.value = m.value
  | none => p.valueBallot = -1 ∧ p.valueSize = 0 ∧ p.value = []

def logOf (trace : List Effect) : List LogLine := trace.filterMap Effect.logged?

/-- A promise batch sent after `older` reports the last accepts. -/
def FaithfulSend (e : Effect) (older : List Effect) : Prop :=
  ∀ msg batch, e = .send msg → msg.data = .promise batch →
    ∀ p ∈ batch.data, p.Reports (lastAccept p.iid (logOf older))

/-- No anyval blanks an accepted value. -/
def KeepsValue (cfg : Config) (env : DiskEnv) (s : AcceptorState) : AcceptorOp → Prop
  | .anyval iid ballot => ∀ r, readRecord cfg env s iid = some r →
      AnyvalApplied ballot (some r) → r.valueBallot = -1
  | .prepare _ | .accept _ | .lsync _ => True

instance (ballot : Int) (r : AcceptorRecord) : Decidable (AnyvalApplied ballot (some r)) :=
  inferInstanceAs (Decidable (r.anyEnabled = true ∨ r.ballot ≤ ballot))

instance (cfg : Config) (env : DiskEnv) (s : AcceptorState) :
    (op : AcceptorOp) → Decidable (KeepsValue cfg env s op)
  | .anyval iid _ => inferInstanceAs (Decidable (∀ r, readRecord cfg env s iid = some r → _))
  | .prepare _ | .accept _ | .lsync _ => isTrue trivial

section Log

variable {log : List LogLine} {iid : Int} {line : LogLine}

theorem lastAccept_cons :
    lastAccept iid (line :: log) = (line.acceptFor iid).or (lastAccept iid log) := by
  rw [lastAccept, List.findSome?_cons]
  cases line.acceptFor iid <;> rfl

theorem lastAccept_cons_of_none (h : line.acceptFor iid = none) :
    lastAccept iid (line :: log) = lastAccept iid log := by
  rw [lastAccept_cons, h]
  rfl

@[simp] theorem lastAccept_cons_self (m : AcceptMsg) :
    lastAccept m.iid (.acceptApplied m :: log) = some m := by
  simp [lastAccept_cons, LogLine.acceptFor]

theorem lastAccept_mem {m : AcceptMsg} (h : lastAccept iid log = some m) :
    LogLine.acceptApplied m ∈ log ∧ m.iid = iid := by
  rw [lastAccept, List.findSome?_eq_some_iff] at h
  obtain ⟨newer, line, older, rfl, hline, -⟩ := h
  cases line with
  | acceptApplied m' =>
      simp only [LogLine.acceptFor, Option.ite_none_right_eq_some, Option.some.injEq] at hline
      obtain ⟨hiid, rfl⟩ := hline
      exact ⟨by simp, hiid⟩
  | promised _ | anyvalApplied _ _ => cases hline

end Log

/-- The value fields of an image are those of the accept, or blank without one. -/
def FlatRecord.Holds (f : FlatRecord) (last : Option AcceptMsg) : Prop :=
  f.promise.Reports last

/-- The store holds the last accepts and nothing else. -/
structure ValuesKept (stored : Int → Option FlatRecord) (log : List LogLine) : Prop where
  absent : ∀ iid, stored iid = none → lastAccept iid log = none
  held : ∀ iid f, stored iid = some f → f.Holds (lastAccept iid log)

section Preservation

variable {cfg : Config} {env : DiskEnv} {s t : AcceptorState}

/-- Only the written instance needs an argument. -/
theorem ValuesKept.update {stored : Int → Option FlatRecord} {log : List LogLine}
    {line : LogLine} {iid : Int} {f : FlatRecord} (kept : ValuesKept stored log)
    (own : f.Holds (lastAccept iid (line :: log)))
    (other : ∀ i, i ≠ iid → line.acceptFor i = none) :
    ValuesKept (Function.update stored iid (some f)) (line :: log) := by
  constructor
  · intro i hi
    by_cases h : i = iid
    · subst h
      simp at hi
    · rw [Function.update_of_ne h] at hi
      rw [lastAccept_cons_of_none (other i h)]
      exact kept.absent i hi
  · intro i g hg
    by_cases h : i = iid
    · subst h
      rw [Function.update_self] at hg
      cases hg
      exact own
    · rw [Function.update_of_ne h] at hg
      rw [lastAccept_cons_of_none (other i h)]
      exact kept.held i g hg

theorem ValuesKept.prepare_image (kept : ValuesKept s.stored s.log) (msg : PrepareMsg) :
    (msg.image (s.stored msg.iid)).Holds (lastAccept msg.iid s.log) := by
  cases hf : s.stored msg.iid with
  | none =>
      rw [kept.absent msg.iid hf]
      exact ⟨rfl, rfl, rfl⟩
  | some f => exact kept.held msg.iid f hf

/-- An anyval that blanks no accepted value meets an instance without accepts. -/
theorem ValuesKept.noAccept_of_anyval (kept : ValuesKept s.stored s.log) (coh : s.Coherent cfg)
    {iid ballot : Int} (nonneg : 0 ≤ iid)
    (accepted_nonneg : ∀ m, lastAccept iid s.log = some m → 0 ≤ m.ballot)
    (applied : AnyvalApplied ballot (readRecord cfg env s iid))
    (keeps : KeepsValue cfg env s (.anyval iid ballot)) : lastAccept iid s.log = none := by
  cases hr : readRecord cfg env s iid with
  | none => exact kept.absent iid (coh.read_none hr)
  | some r =>
      rw [hr] at applied
      have hblank : r.valueBallot = -1 := keeps r hr applied
      have hheld := kept.held iid _ (coh.read_some nonneg hr).stored
      cases hlast : lastAccept iid s.log with
      | none => rfl
      | some m =>
          rw [hlast] at hheld
          have hb : r.valueBallot = m.ballot := hheld.1
          have := accepted_nonneg m hlast
          omega

/-- Accepts in the log were well-formed. -/
def AcceptsWellFormed (log : List LogLine) : Prop :=
  ∀ m, LogLine.acceptApplied m ∈ log → m.WellFormed

theorem ValuesKept.step {op : AcceptorOp} (coh : s.Coherent cfg) (wf : op.WellFormed)
    (kept : ValuesKept s.stored s.log) (accepts : AcceptsWellFormed s.log)
    (keeps : KeepsValue cfg env s op) (outcome : OpOutcome cfg env s op t) :
    ValuesKept t.stored t.log ∧ AcceptsWellFormed t.log := by
  cases outcome with
  | promised granted stored log =>
      rw [stored, log]
      constructor
      · apply kept.update
        · rw [lastAccept_cons_of_none rfl]
          exact kept.prepare_image _
        · intro i hi
          rfl
      · intro m hm
        exact accepts m (by simpa using hm)
  | @accepted amsg _ applied stored log sent =>
      rw [stored, log]
      constructor
      · apply kept.update
        · rw [lastAccept_cons_self]
          exact ⟨rfl, rfl, rfl⟩
        · intro i hi
          simp [LogLine.acceptFor, Ne.symm hi]
      · intro m hm
        cases List.mem_cons.mp hm with
        | inl heq =>
            cases heq
            exact wf
        | inr hmem => exact accepts m hmem
  | opened applied stored log sent =>
      rw [stored, log]
      constructor
      · apply kept.update
        · rw [lastAccept_cons_of_none rfl, kept.noAccept_of_anyval coh wf.1 ?_ applied keeps]
          · exact ⟨rfl, rfl, rfl⟩
          · intro m hm
            exact (accepts m (lastAccept_mem hm).1).ballot_nonneg
        · intro i hi
          rfl
      · intro m hm
        exact accepts m (by simpa using hm)
  | answered read value stored log sent | ignored stored log sent =>
      rw [stored, log]
      exact ⟨kept, accepts⟩

end Preservation

/-! ### The promises sent -/

/-- The promises waiting in the batch report the last accepts. -/
def BatchFaithful (s : AcceptorState) : Prop :=
  ∀ p ∈ s.promiseBatch.data, p.Reports (lastAccept p.iid s.log)

section Sends

variable {cfg : Config} {env : DiskEnv} {s t : AcceptorState}

theorem faithful_emit {e : Effect} (h : Along FaithfulSend s.trace)
    (other : ∀ msg batch, e = .send msg → msg.data ≠ .promise batch) :
    Along FaithfulSend (s.emit e).trace :=
  ⟨fun msg batch he hb => absurd hb (other msg batch he), h⟩

theorem faithful_flush (h : Along FaithfulSend s.trace) (batch : BatchFaithful s) :
    Along FaithfulSend (flushSendBuffer s).trace := by
  refine ⟨?_, h⟩
  intro msg b he hb p hp
  cases he
  cases hb
  exact batch p hp

variable (cfg env) in
theorem faithful_diskForceSyncrony (h : Along FaithfulSend s.trace) :
    Along FaithfulSend (diskForceSyncrony cfg env s).trace := by
  simp only [diskForceSyncrony]
  split
  · exact faithful_emit h (by intro msg b he; cases he)
  · exact h

theorem faithful_diskUpdateRecord (h : Along FaithfulSend s.trace) (r : AcceptorRecord) :
    Along FaithfulSend (diskUpdateRecord cfg env s r).trace := by
  have hput := faithful_emit (e := .put (flatten r) (env.putRet s.trace.length)) h
    (by intro msg b he; cases he)
  simp only [diskUpdateRecord]
  split
  · exact hput
  · exact faithful_diskForceSyncrony cfg env hput

variable (cfg) in
theorem faithful_consult (h : Along FaithfulSend s.trace) (iid : Int) :
    Along FaithfulSend (s.consult cfg iid).trace := by
  simp only [AcceptorState.consult]
  split
  · exact faithful_emit h (by intro msg b he; cases he)
  · exact h

theorem faithful_writeBack (h : Along FaithfulSend s.trace) (iid : Int) (r : AcceptorRecord) :
    Along FaithfulSend (writeBack cfg env s iid r).trace := by
  apply faithful_diskUpdateRecord
  have hc := faithful_consult cfg h iid
  cases recordPtr cfg s iid <;> exact hc

variable (cfg env) in
theorem faithful_makeRoom (h : Along FaithfulSend s.trace) (batch : BatchFaithful s)
    (promiseSize : Int) :
    Along FaithfulSend (makeRoom cfg env s promiseSize).trace ∧
      BatchFaithful (makeRoom cfg env s promiseSize) := by
  have hsync := faithful_diskForceSyncrony cfg env h
  have hbatch : BatchFaithful (diskForceSyncrony cfg env s) := by
    simpa [BatchFaithful] using batch
  have hflush := faithful_flush hsync hbatch
  simp only [makeRoom]
  split
  · split
    · exact ⟨hflush, by intro p hp; cases hp⟩
    · exact ⟨hflush, hbatch⟩
  · split
    · exact ⟨h, by intro p hp; cases hp⟩
    · exact ⟨h, batch⟩

theorem faithful_addPromise (h : Along FaithfulSend s.trace) (batch : BatchFaithful s)
    {r : AcceptorRecord} (reports : (promiseOf r).Reports (lastAccept r.iid s.log)) :
    Along FaithfulSend (addPromiseToSendBuffer cfg env s r).trace ∧
      BatchFaithful (addPromiseToSendBuffer cfg env s r) := by
  obtain ⟨hroom, hwait⟩ := faithful_makeRoom cfg env h batch
    (sizeofPromiseMsg + r.valueSize)
  constructor
  · apply faithful_emit
    · exact hroom
    · intro msg b he
      cases he
  · intro p hp
    rw [(addPromiseToSendBuffer_frame cfg env s r).2.2.2, lastAccept_cons_of_none rfl]
    have hp : p ∈ (makeRoom cfg env s (sizeofPromiseMsg + r.valueSize)).promiseBatch.data ++
        [promiseOf r] := hp
    cases List.mem_append.mp hp with
    | inl hold => simpa using hwait p hold
    | inr hnew =>
        obtain rfl := List.mem_singleton.mp hnew
        exact reports

/-- Learns are no promises, and building one empties the batch. -/
theorem faithful_sendLearn (h : Along FaithfulSend s.trace) (r : AcceptorRecord) :
    Along FaithfulSend (sendLearnMessage s r).trace ∧ BatchFaithful (sendLearnMessage s r) := by
  constructor
  · refine ⟨?_, h⟩
    intro msg b he hb
    cases he
    cases hb
  · intro p hp
    cases hp

theorem batch_of_frame (batch : BatchFaithful s) (hb : t.promiseBatch = s.promiseBatch)
    (hl : ∀ iid, lastAccept iid t.log = lastAccept iid s.log) : BatchFaithful t := by
  intro p hp
  rw [hb] at hp
  rw [hl]
  exact batch p hp

theorem faithful_step {op : AcceptorOp} (coh : s.Coherent cfg)
    (wf : op.WellFormed) (kept : ValuesKept s.stored s.log)
    (h : Along FaithfulSend s.trace) (batch : BatchFaithful s)
    (run : handleOp cfg env s op = some t) :
    Along FaithfulSend t.trace ∧ BatchFaithful t := by
  cases handleOp_branch run with
  | @granted msg granted =>
      obtain ⟨hiid, himg, -, -⟩ := prepare_record_spec env coh wf
      apply faithful_addPromise
      · exact faithful_writeBack h _ _
      · exact batch_of_frame batch (by simp [writeBack_frame]) (by simp [writeBack_frame])
      · rw [promiseOf_eq, himg, hiid, (writeBack_frame _).2.2.1]
        exact kept.prepare_image msg
  | applied applied =>
      apply faithful_sendLearn
      apply faithful_emit
      · exact faithful_diskForceSyncrony cfg env (faithful_writeBack h _ _)
      · intro msg b he
        cases he
  | opened applied =>
      constructor
      · apply faithful_emit
        · exact faithful_writeBack h _ _
        · intro msg b he
          cases he
      · apply batch_of_frame batch
        · simp [writeBack_frame]
        · intro i
          simp [writeBack_frame, Effect.logged?, lastAccept_cons, LogLine.acceptFor]
  | @answered iid r read value => exact faithful_sendLearn (faithful_consult cfg h iid) r
  | refused iid =>
      exact ⟨faithful_consult cfg h iid, batch_of_frame batch (by simp) (by simp)⟩

end Sends

/-- What a run that blanks no accepted value keeps true. -/
structure Faithful (cfg : Config) (s : AcceptorState) : Prop where
  coherent : s.Coherent cfg
  kept : ValuesKept s.stored s.log
  accepts : AcceptsWellFormed s.log
  sends : Along FaithfulSend s.trace
  batch : BatchFaithful s

theorem Faithful.step {cfg : Config} {env : DiskEnv} (puts : env.PutsSucceed)
    {s t : AcceptorState} {op : AcceptorOp} (wf : op.WellFormed) (inv : Faithful cfg s)
    (keeps : KeepsValue cfg env s op) (run : handleOp cfg env s op = some t) :
    Faithful cfg t := by
  obtain ⟨coh, -, outcome⟩ := handleOp_outcome inv.coherent puts wf run
  obtain ⟨kept, accepts⟩ := inv.kept.step inv.coherent wf inv.accepts keeps outcome
  obtain ⟨sends, batch⟩ := faithful_step inv.coherent wf inv.kept inv.sends inv.batch run
  exact ⟨coh, kept, accepts, sends, batch⟩

/-- Flushing and resetting the batch leave the store and the debug log alone. -/
theorem Faithful.congr {cfg : Config} {s t : AcceptorState} (inv : Faithful cfg s)
    (arr : t.acceptorArray = s.acceptorArray) (db : t.accDb = s.accDb) (log : t.log = s.log)
    (sends : Along FaithfulSend t.trace) (batch : BatchFaithful t) : Faithful cfg t := by
  refine ⟨inv.coherent.congr arr db, ?_, ?_, sends, batch⟩
  · rw [stored_of_accDb db, log]
    exact inv.kept
  · rw [log]
    exact inv.accepts

theorem acceptor_faithful {cfg : Config} {env : DiskEnv} (puts : env.PutsSucceed)
    {s : AcceptorState}
    (h : Reachable (acceptorSystem cfg env) (MessageMeets cfg env (KeepsValue cfg env)) s) :
    Faithful cfg s := by
  refine acceptor_invariant (Faithful cfg) ?_ ?_ ?_ ?_ h
  · intro id
    refine ⟨acceptorStart_coherent cfg id, ⟨fun _ _ => rfl, ?_⟩, ?_, trivial, ?_⟩
    · intro iid f hf
      cases hf
    · intro m hm
      cases hm
    · intro p hp
      cases hp
  · intro s inv
    exact inv.congr (by simp) (by simp) (by simp) inv.sends (fun p hp => by cases hp)
  · intro s op t wf inv keeps run
    exact inv.step puts wf keeps run
  · intro s inv _
    apply inv.congr (by simp) (by simp) (by simp)
    · apply faithful_flush
      · exact faithful_diskForceSyncrony cfg env inv.sends
      · exact batch_of_frame inv.batch (by simp) (by simp)
    · exact batch_of_frame inv.batch (by simp) (by simp)

/-- Every promise sent in a run that blanks no accepted value reports the last accept. -/
theorem promises_report_last_accept {cfg : Config} {env : DiskEnv} (puts : env.PutsSucceed)
    {s : AcceptorState}
    (h : Reachable (acceptorSystem cfg env) (MessageMeets cfg env (KeepsValue cfg env)) s) :
    Along FaithfulSend s.trace :=
  (acceptor_faithful puts h).sends

def recoveryRun : List PaxosMsg :=
  [anyvalPacket 20 [0], acceptPacket ⟨0, 11, 1, 1, [7]⟩, preparePacket [⟨0, 30⟩]]

theorem recoveryRun_keepsValue :
    RunMeets .shipped quietDisk (KeepsValue .shipped quietDisk) (acceptorStart 0)
      recoveryRun := by
  refine ⟨⟨by decide, ⟨?_, fun _ _ => trivial⟩⟩, fun t ht => ?_⟩
  · intro r hr
    cases hr
  · obtain rfl := Option.some.inj ht
    refine ⟨⟨by decide, ⟨trivial, fun _ _ => trivial⟩⟩, fun t ht => ?_⟩
    obtain rfl := Option.some.inj ht
    exact ⟨⟨by decide, ⟨trivial, fun _ _ => trivial⟩⟩, fun _ _ => trivial⟩

theorem promises_report_last_accept_recovery :
    ∃ s, runMessages .shipped quietDisk (acceptorStart 0) recoveryRun = some s ∧
      Along FaithfulSend s.trace := by
  have run : runMessages .shipped quietDisk (acceptorStart 0) recoveryRun = some _ := rfl
  exact ⟨_, run, promises_report_last_accept quietDisk_putsSucceed
    (reachable_run (.init ⟨0, rfl⟩) recoveryRun_keepsValue run)⟩

/-- The anyval is delivered a second time after the fast accept. -/
def duplicateAnyvalRun : List PaxosMsg :=
  [anyvalPacket 20 [0], acceptPacket ⟨0, 11, 1, 1, [7]⟩, anyvalPacket 20 [0],
    preparePacket [⟨0, 30⟩]]

theorem duplicateAnyvalRun_forgets_value :
    (∀ msg ∈ duplicateAnyvalRun, msg.data.WellFormed) ∧
      ∃ s, runMessages .shipped quietDisk (acceptorStart 0) duplicateAnyvalRun = some s ∧
        ¬ Along FaithfulSend s.trace := by
  refine ⟨by decide, _, rfl, fun along => ?_⟩
  have hsend := along.1 _ _ rfl rfl ⟨0, 30, -1, 0, []⟩ List.mem_cons_self
  exact absurd hsend.1 (by decide)

end LibFastPaxos
