import LibFastPaxos.AcceptorRuns

/-!
The two-level store against the writes made to it. In every state that a message
passes through, what the handlers consult for an instance is the last record
written for it, and a slot holds the largest instance written among those that
share it, so that no written instance is taken for a new one.
-/

namespace LibFastPaxos

open Transition

def Effect.writeFor (iid : Int) : Effect → Option FlatRecord
  | .put flat _ => if flat.iid = iid then some flat else none
  | _ => none

/-- The last record written for the instance. -/
def AcceptorState.lastWrite (s : AcceptorState) (iid : Int) : Option FlatRecord :=
  s.trace.findSome? (Effect.writeFor iid)

/-- What the handlers consult: the slot if it holds the instance, else the disk. -/
def AcceptorState.consulted (s : AcceptorState) (cfg : Config) (iid : Int) : Option FlatRecord :=
  if (s.slot cfg iid).iid = iid then some (flatten (s.slot cfg iid)) else s.stored iid

/-- The handlers take the branch of an instance never seen before. -/
def NeverSeen (cfg : Config) (env : DiskEnv) (s : AcceptorState) (iid : Int) : Prop :=
  (s.slot cfg iid).iid < iid ∨
    (iid < (s.slot cfg iid).iid ∧ (diskLookupRecord env s iid).2 = none)

/-- What holds for an instance once it has been written. -/
structure WrittenExact (cfg : Config) (env : DiskEnv) (s : AcceptorState) (iid : Int)
    (f : FlatRecord) : Prop where
  consulted : s.consulted cfg iid = some f
  le_slot : iid ≤ (s.slot cfg iid).iid
  slot_shared : cfg.acceptorArraySize.index (s.slot cfg iid).iid =
    cfg.acceptorArraySize.index iid
  slot_written : (s.lastWrite (s.slot cfg iid).iid).isSome
  seen : ¬NeverSeen cfg env s iid

/-- The disk holds the last record written for each instance. -/
def AcceptorState.Shadowed (s : AcceptorState) : Prop := s.stored = s.lastWrite

section Writes

variable {cfg : Config} {env : DiskEnv} {s : AcceptorState} {r : AcceptorRecord}

@[simp] theorem emit_lastWrite (e : Effect) :
    (s.emit e).lastWrite = fun iid => (e.writeFor iid).or (s.lastWrite iid) := by
  funext iid
  simp only [AcceptorState.lastWrite, AcceptorState.emit, List.findSome?_cons]
  cases e.writeFor iid <;> rfl

@[simp] theorem store_lastWrite (ptr : RecordPtr) : (s.store r ptr).lastWrite = s.lastWrite := by
  cases ptr <;> rfl

@[simp] theorem diskForceSyncrony_lastWrite :
    (diskForceSyncrony cfg env s).lastWrite = s.lastWrite := by
  simp only [diskForceSyncrony]
  split <;> simp [Effect.writeFor]

theorem diskUpdateRecord_lastWrite :
    (diskUpdateRecord cfg env s r).lastWrite =
      Function.update s.lastWrite r.iid (some (flatten r)) := by
  have hput : (s.emit (.put (flatten r) (env.putRet s.trace.length))).lastWrite =
      Function.update s.lastWrite r.iid (some (flatten r)) := by
    funext iid
    have hiid : (flatten r).iid = r.iid := rfl
    by_cases h : r.iid = iid
    · subst h
      simp [Effect.writeFor, hiid]
    · simp [Effect.writeFor, hiid, h, Function.update_of_ne (Ne.symm h)]
  simp only [diskUpdateRecord]
  split
  · exact hput
  · rw [diskForceSyncrony_lastWrite]
    exact hput

@[simp] theorem flushSendBuffer_lastWrite : (flushSendBuffer s).lastWrite = s.lastWrite := by
  simp [flushSendBuffer, Effect.writeFor]
  rfl

@[simp] theorem resetPromiseBatch_lastWrite : (resetPromiseBatch s).lastWrite = s.lastWrite := rfl

@[simp] theorem addPromiseToSendBuffer_lastWrite :
    (addPromiseToSendBuffer cfg env s r).lastWrite = s.lastWrite := by
  have hroom : ∀ size, (makeRoom cfg env s size).lastWrite = s.lastWrite := by
    intro size
    simp only [makeRoom]
    split <;> split <;> simp
  have happend : ∀ u : AcceptorState, (appendPromise u r).lastWrite = u.lastWrite := fun _ => rfl
  simp [addPromiseToSendBuffer, Effect.writeFor, happend, hroom]

@[simp] theorem sendLearnMessage_lastWrite : (sendLearnMessage s r).lastWrite = s.lastWrite := by
  simp [sendLearnMessage, Effect.writeFor]
  rfl

@[simp] theorem consult_lastWrite (iid : Int) : (s.consult cfg iid).lastWrite = s.lastWrite := by
  simp only [AcceptorState.consult]
  split <;> simp [Effect.writeFor]

theorem AcceptorState.Shadowed.frame {t : AcceptorState} (h : s.Shadowed)
    (db : t.accDb = s.accDb) (writes : t.lastWrite = s.lastWrite) : t.Shadowed := by
  simp only [AcceptorState.Shadowed]
  rw [stored_of_accDb db, writes]
  exact h

/-- Writing a record back is the last write of its instance. -/
theorem AcceptorState.Shadowed.writeBack (h : s.Shadowed) (cfg : Config)
    (puts : env.PutsSucceed) {iid : Int} (iid_eq : r.iid = iid) :
    (LibFastPaxos.writeBack cfg env s iid r).Shadowed := by
  simp only [AcceptorState.Shadowed]
  rw [writeBack_stored cfg puts iid_eq, LibFastPaxos.writeBack, diskUpdateRecord_lastWrite,
    store_lastWrite, consult_lastWrite, iid_eq, h]

theorem AcceptorState.Shadowed.step (coh : s.Coherent cfg) (h : s.Shadowed)
    (puts : env.PutsSucceed) {op : AcceptorOp} (wf : op.WellFormed) {t : AcceptorState}
    (run : handleOp cfg env s op = some t) : t.Shadowed := by
  cases handleOp_branch run with
  | granted granted =>
      obtain ⟨hiid, -⟩ := prepare_record_spec env coh wf
      exact (h.writeBack cfg puts hiid).frame (by simp) (by simp)
  | @applied amsg applied =>
      have hwritten := h.writeBack (r := amsg.record (acceptBase (blankRecord cfg s amsg.iid)
        (readRecord cfg env s amsg.iid))) cfg puts rfl
      exact hwritten.frame (by simp; rfl) (by simp [Effect.writeFor]; rfl)
  | @opened iid ballot applied =>
      have hwritten := h.writeBack (r := anyvalRecord
        ((readRecord cfg env s iid).getD (blankRecord cfg s iid)) iid ballot) cfg puts rfl
      exact hwritten.frame (by simp; rfl) (by simp [Effect.writeFor]; rfl)
  | answered read value => exact h.frame (by simp) (by simp)
  | refused iid => exact h.frame (by simp) (by simp)

end Writes

section Runs

variable {cfg : Config} {env : DiskEnv} {s : AcceptorState}

/-- Both levels of the store agree with the writes. -/
structure StoreExact (cfg : Config) (s : AcceptorState) : Prop where
  coherent : s.Coherent cfg
  shadowed : s.Shadowed

theorem StoreExact.frame {t : AcceptorState} (h : StoreExact cfg s)
    (arr : t.acceptorArray = s.acceptorArray) (db : t.accDb = s.accDb)
    (writes : t.lastWrite = s.lastWrite) : StoreExact cfg t :=
  ⟨h.coherent.congr arr db, h.shadowed.frame db writes⟩

theorem StoreExact.step (h : StoreExact cfg s) (puts : env.PutsSucceed) {op : AcceptorOp}
    (wf : op.WellFormed) {t : AcceptorState} (run : handleOp cfg env s op = some t) :
    StoreExact cfg t :=
  ⟨(handleOp_outcome h.coherent puts wf run).1, h.shadowed.step h.coherent puts wf run⟩

theorem acceptor_storeExact (puts : env.PutsSucceed)
    {cond : AcceptorState → AcceptorOp → Prop}
    (h : Reachable (acceptorSystem cfg env) (MessageMeets cfg env cond) s) : StoreExact cfg s := by
  refine acceptor_invariant (StoreExact cfg) ?_ ?_ ?_ ?_ h
  · exact fun id => ⟨acceptorStart_coherent cfg id, rfl⟩
  · exact fun s inv => inv.frame (by simp) (by simp) (by simp)
  · exact fun s op t wf inv _ run => inv.step puts wf run
  · exact fun s inv _ => inv.frame (by simp) (by simp) (by simp)

theorem StoreExact.written (h : StoreExact cfg s) (env : DiskEnv) {iid : Int} {f : FlatRecord}
    (written : s.lastWrite iid = some f) : WrittenExact cfg env s iid f := by
  have hstored : s.stored iid = some f := by
    rw [h.shadowed]
    exact written
  have hdisk := h.coherent.disk iid f hstored
  have hslot : s.SlotCoherent cfg (cfg.acceptorArraySize.index iid) := by
    refine (h.coherent.slots _).resolve_left fun hunused => ?_
    have hle := hdisk.le_slot
    have hnonneg := hdisk.nonneg
    unfold AcceptorState.slot at hle
    omega
  refine ⟨?_, hdisk.le_slot, hslot.in_place, ?_, ?_⟩
  · simp only [AcceptorState.consulted]
    split
    · next hheld =>
        have hon := hslot.on_disk
        change s.stored (s.slot cfg iid).iid = some (flatten (s.slot cfg iid)) at hon
        rw [hheld, hstored] at hon
        exact hon.symm
    · exact hstored
  · have hon := hslot.on_disk
    rw [h.shadowed] at hon
    change (s.lastWrite (s.acceptorArray _).iid).isSome
    rw [hon]
    rfl
  · intro hnever
    cases hnever with
    | inl hnew =>
        have hle := hdisk.le_slot
        omega
    | inr hmissing =>
        have hnone := hmissing.2
        have hdb : s.accDb (iid + 1) = some f := hstored
        simp [diskLookupRecord, hdb] at hnone

/-- Whatever has been written is found as it was last written, between messages and
between the operations of a message. -/
theorem store_coherent (puts : env.PutsSucceed)
    (h : Reachable (acceptorSystem cfg env) anyStep s) :
    (∀ iid f, s.lastWrite iid = some f → WrittenExact cfg env s iid f) ∧
      ∀ msg : PaxosMsg, msg.data.WellFormed → ∀ done rest t, msg.data.ops = done ++ rest →
        done.foldlM (handleOp cfg env) (openMessage s msg.data) = some t →
        ∀ iid f, t.lastWrite iid = some f → WrittenExact cfg env t iid f := by
  have hreachable : Reachable (acceptorSystem cfg env) (MessageMeets cfg env fun _ _ => True) s :=
    h.mono fun u msg _ => Meets.of_forall (fun _ _ => trivial) _ _
  have hs : StoreExact cfg s := acceptor_storeExact puts hreachable
  refine ⟨fun iid f written => hs.written env written, ?_⟩
  intro msg wf done rest t hops run iid f written
  have hopen : StoreExact cfg (openMessage s msg.data) := by
    cases msg.data with
    | prepare b => exact hs.frame rfl rfl rfl
    | accept _ | lsync _ | anyval _ | promise _ | learn _ => exact hs
  have hops : ∀ op ∈ done, op.WellFormed := by
    intro op hop
    apply PaxosData.ops_wellFormed wf
    rw [hops]
    exact List.mem_append_left _ hop
  have hmeets : Meets (handleOp cfg env) (fun _ _ => True) (openMessage s msg.data) done :=
    Meets.of_forall (fun _ _ => trivial) _ _
  have ht : StoreExact cfg t := Meets.invariant (StoreExact cfg)
    (fun _ _ _ wf inv _ run => inv.step puts wf run) hops hopen hmeets run
  exact ht.written env written

end Runs

theorem reachable_messages {cfg : Config} {env : DiskEnv} {s t : AcceptorState}
    {msgs : List PaxosMsg} (h : Reachable (acceptorSystem cfg env) anyStep s)
    (wf : ∀ msg ∈ msgs, msg.data.WellFormed) (run : runMessages cfg env s msgs = some t) :
    Reachable (acceptorSystem cfg env) anyStep t := by
  have hmeets : Meets (handleMessage cfg env) (fun _ _ => True) s msgs :=
    Meets.of_forall (fun _ _ => trivial) _ _
  refine Meets.invariant _ ?_ wf h hmeets run
  intro s msg t hwf h _ hrun
  exact .step h trivial ⟨hwf, hrun⟩

/-- Instance 1024 takes the slot of instance 0, which is then accepted from disk. -/
def evictionRun : List PaxosMsg :=
  [preparePacket [⟨0, 20⟩], preparePacket [⟨1024, 20⟩], acceptPacket ⟨0, 20, 1, 0, [7]⟩]

theorem store_coherent_eviction :
    ∃ s, runMessages .shipped quietDisk (acceptorStart 0) evictionRun = some s ∧
      s.lastWrite 0 = some ⟨0, 20, 20, 1, [7]⟩ ∧
      WrittenExact .shipped quietDisk s 0 ⟨0, 20, 20, 1, [7]⟩ := by
  have run : runMessages .shipped quietDisk (acceptorStart 0) evictionRun = some _ := rfl
  refine ⟨_, run, rfl, ?_⟩
  have h := reachable_messages (.init ⟨0, rfl⟩) (by decide) run
  exact (store_coherent quietDisk_putsSucceed h).1 0 _ rfl

end LibFastPaxos
