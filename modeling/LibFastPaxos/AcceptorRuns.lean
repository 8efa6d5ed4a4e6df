import LibFastPaxos.AcceptorOutbox
import LibFastPaxos.Lib.Transition
import LibFastPaxos.Lib.History

/-!
Runs of one acceptor. A message is a sequence of single operations, a condition
on a run is a condition on each of them, and `OpOutcome` says once what an
operation can do to the store, the debug log and the datagrams sent.
-/

namespace LibFastPaxos

open Transition

inductive AcceptorOp where
  | prepare (msg : PrepareMsg)
  | accept (amsg : AcceptMsg)
  | lsync (iid : Int)
  | anyval (iid ballot : Int)

def AcceptorOp.WellFormed : AcceptorOp → Prop
  | .prepare msg => msg.WellFormed
  | .accept amsg => amsg.WellFormed
  | .lsync iid => 0 ≤ iid
  | .anyval iid ballot => 0 ≤ iid ∧ 0 ≤ ballot

def PaxosData.ops : PaxosData → List AcceptorOp
  | .prepare b => (b.data.take b.count.toNat).map .prepare
  | .accept amsg => [.accept amsg]
  | .lsync m => (m.ids.take m.count.toNat).map .lsync
  | .anyval m => (m.ids.take m.count.toNat).map fun iid => .anyval iid m.ballot
  | .promise _ | .learn _ => []

section Ops

variable (cfg : Config) (env : DiskEnv)

def handleOp (s : AcceptorState) : AcceptorOp → Option AcceptorState
  | .prepare msg => some (handlePrepare cfg env s msg)
  | .accept amsg => some (handleAccept cfg env s amsg)
  | .lsync iid => some (handleLsync cfg env s iid)
  | .anyval iid ballot => handleAnyval cfg env s iid ballot

/-- What `handle_prepare_batch` does before its loop. -/
def openMessage (s : AcceptorState) : PaxosData → AcceptorState
  | .prepare _ => resetPromiseBatch s
  | _ => s

/-- What `handle_prepare_batch` does after its loop. -/
def closeMessage (s : AcceptorState) : PaxosData → AcceptorState
  | .prepare _ =>
      if s.promiseBatch.count > 0 then flushSendBuffer (diskForceSyncrony cfg env s) else s
  | _ => s

theorem handleMessage_eq (s : AcceptorState) (msg : PaxosMsg) :
    handleMessage cfg env s msg =
      (msg.data.ops.foldlM (handleOp cfg env) (openMessage s msg.data)).map
        fun t => closeMessage cfg env t msg.data := by
  simp only [handleMessage]
  cases msg.data with
  | prepare b =>
      simp only [PaxosData.ops, List.foldlM_map, handleOp, openMessage, closeMessage,
        handlePrepareBatch]
      rw [← Option.pure_def, List.foldlM_pure]
      rfl
  | accept amsg => rfl
  | lsync m =>
      simp only [PaxosData.ops, List.foldlM_map, handleOp, openMessage, closeMessage,
        handleBatchLsync]
      rw [← Option.pure_def, List.foldlM_pure]
      rfl
  | anyval m =>
      simp only [PaxosData.ops, List.foldlM_map, handleOp, openMessage, closeMessage,
        handleBatchAnyval, Option.map_id']
  | promise _ => rfl
  | learn _ => rfl

/-- The condition holds of every operation of a message, each in the state it meets. -/
def MessageMeets (cond : AcceptorState → AcceptorOp → Prop) (s : AcceptorState)
    (msg : PaxosMsg) : Prop :=
  Meets (handleOp cfg env) cond (openMessage s msg.data) msg.data.ops

/-- The messages of a list handled one after the other. -/
def runMessages (s : AcceptorState) (msgs : List PaxosMsg) : Option AcceptorState :=
  msgs.foldlM (handleMessage cfg env) s

/-- The messages are well-formed and every operation of the run meets the condition. -/
def RunMeets (cond : AcceptorState → AcceptorOp → Prop) : AcceptorState → List PaxosMsg → Prop :=
  Meets (handleMessage cfg env) fun s msg => msg.data.WellFormed ∧ MessageMeets cfg env cond s msg

instance (cond : AcceptorState → AcceptorOp → Prop) [∀ s op, Decidable (cond s op)]
    (s : AcceptorState) (msg : PaxosMsg) : Decidable (MessageMeets cfg env cond s msg) :=
  inferInstanceAs (Decidable (Meets _ _ _ _))

instance (cond : AcceptorState → AcceptorOp → Prop) [∀ s op, Decidable (cond s op)]
    (s : AcceptorState) (msgs : List PaxosMsg) : Decidable (RunMeets cfg env cond s msgs) :=
  inferInstanceAs (Decidable (Meets _ _ _ _))

/-- One acceptor that handles well-formed messages in any order, each any number of times. -/
def acceptorSystem : System AcceptorState PaxosMsg where
  init := fun s => ∃ id, s = acceptorStart id
  step := fun s msg t => msg.data.WellFormed ∧ handleMessage cfg env s msg = some t

end Ops

theorem PaxosData.ops_wellFormed {data : PaxosData} (wf : data.WellFormed) :
    ∀ op ∈ data.ops, op.WellFormed := by
  cases data with
  | prepare b =>
      intro op hop
      obtain ⟨p, hp, rfl⟩ := List.mem_map.mp hop
      exact wf.entries p (List.mem_of_mem_take hp)
  | accept amsg =>
      intro op hop
      obtain rfl := List.mem_singleton.mp hop
      exact wf
  | lsync m =>
      intro op hop
      obtain ⟨i, hi, rfl⟩ := List.mem_map.mp hop
      exact wf.ids_nonneg i (List.mem_of_mem_take hi)
  | anyval m =>
      intro op hop
      obtain ⟨i, hi, rfl⟩ := List.mem_map.mp hop
      exact ⟨wf.ids_nonneg i (List.mem_of_mem_take hi), wf.ballot_nonneg⟩
  | promise _ | learn _ => intro op hop; simp [PaxosData.ops] at hop

theorem ops_noPrepare {data : PaxosData} (other : ∀ b, data ≠ .prepare b) :
    ∀ op ∈ data.ops, ∀ p, op ≠ .prepare p := by
  intro op hop p heq
  subst heq
  cases data with
  | prepare b => exact other b rfl
  | accept amsg => simp [PaxosData.ops] at hop
  | lsync m | anyval m =>
      obtain ⟨i, -, hi⟩ := List.mem_map.mp hop
      cases hi
  | promise _ | learn _ => simp [PaxosData.ops] at hop

theorem reachable_run {cfg : Config} {env : DiskEnv} {cond : AcceptorState → AcceptorOp → Prop}
    {s t : AcceptorState} {msgs : List PaxosMsg}
    (h : Reachable (acceptorSystem cfg env) (MessageMeets cfg env cond) s)
    (meets : RunMeets cfg env cond s msgs) (run : runMessages cfg env s msgs = some t) :
    Reachable (acceptorSystem cfg env) (MessageMeets cfg env cond) t := by
  refine Meets.invariant (P := fun _ => True) _ ?_ (fun _ _ => trivial) h meets run
  intro s msg t _ h meets run
  exact .step h meets.2 ⟨meets.1, run⟩

section Invariants

variable {cfg : Config} {env : DiskEnv} {cond : AcceptorState → AcceptorOp → Prop}
  (Inv : AcceptorState → Prop) {P : AcceptorOp → Prop}

/-- An invariant of the single operations, of opening a batch and of flushing one
that is not empty holds in every state of a run whose operations meet the condition. -/
theorem message_invariant
    (reset : ∀ s, Inv s → Inv (resetPromiseBatch s))
    (step : ∀ s op t, P op → Inv s → cond s op → handleOp cfg env s op = some t → Inv t)
    (flush : ∀ s, Inv s → 0 < s.promiseBatch.count →
      Inv (flushSendBuffer (diskForceSyncrony cfg env s)))
    {s t : AcceptorState} {msg : PaxosMsg} (ops : ∀ op ∈ msg.data.ops, P op) (inv : Inv s)
    (meets : MessageMeets cfg env cond s msg)
    (run : handleMessage cfg env s msg = some t) : Inv t := by
  rw [handleMessage_eq] at run
  obtain ⟨u, hu, rfl⟩ := Option.map_eq_some_iff.mp run
  have hopen : Inv (openMessage s msg.data) := by
    cases hd : msg.data <;> first | exact reset s inv | exact inv
  have hops := Meets.invariant Inv step ops hopen meets hu
  cases hd : msg.data with
  | prepare b =>
      simp only [closeMessage]
      split
      · next hcount => exact flush u hops hcount
      · exact hops
  | accept _ | lsync _ | promise _ | learn _ | anyval _ => exact hops

theorem acceptor_invariant
    (start : ∀ id, Inv (acceptorStart id))
    (reset : ∀ s, Inv s → Inv (resetPromiseBatch s))
    (step : ∀ s op t, op.WellFormed → Inv s → cond s op → handleOp cfg env s op = some t → Inv t)
    (flush : ∀ s, Inv s → 0 < s.promiseBatch.count →
      Inv (flushSendBuffer (diskForceSyncrony cfg env s)))
    {s : AcceptorState}
    (h : Reachable (acceptorSystem cfg env) (MessageMeets cfg env cond) s) : Inv s := by
  refine Reachable.invariant ?_ ?_ h
  · intro s ⟨id, hs⟩
    subst hs
    exact start id
  · intro s msg t _ inv meets ⟨wf, run⟩
    exact message_invariant Inv reset step flush (PaxosData.ops_wellFormed wf) inv meets run

end Invariants

/-- The learn an acceptor owes for an accept it applied. -/
def AcceptMsg.learn (amsg : AcceptMsg) (acceptorId : Int) : LearnMsg where
  acceptorId := acceptorId
  iid := amsg.iid
  ballot := amsg.ballot
  proposerId := amsg.proposerId
  valueSize := amsg.valueSize
  value := amsg.value

/-- The states that one operation can lead to. -/
inductive OpBranch (cfg : Config) (env : DiskEnv) (s : AcceptorState) :
    AcceptorOp → AcceptorState → Prop where
  | granted {msg : PrepareMsg} (granted : msg.Granted (readRecord cfg env s msg.iid)) :
      OpBranch cfg env s (.prepare msg)
        (addPromiseToSendBuffer cfg env
          (writeBack cfg env s msg.iid
            (msg.record (blankRecord cfg s msg.iid) (readRecord cfg env s msg.iid)))
          (msg.record (blankRecord cfg s msg.iid) (readRecord cfg env s msg.iid)))
  | applied {amsg : AcceptMsg} (applied : amsg.Applied cfg (readRecord cfg env s amsg.iid)) :
      OpBranch cfg env s (.accept amsg)
        (sendLearnMessage
          ((diskForceSyncrony cfg env (writeBack cfg env s amsg.iid (amsg.record
            (acceptBase (blankRecord cfg s amsg.iid) (readRecord cfg env s amsg.iid))))).emit
              (.log (.acceptApplied amsg)))
          (amsg.record
            (acceptBase (blankRecord cfg s amsg.iid) (readRecord cfg env s amsg.iid))))
  | opened {iid ballot : Int} (applied : AnyvalApplied ballot (readRecord cfg env s iid)) :
      OpBranch cfg env s (.anyval iid ballot)
        ((writeBack cfg env s iid
          (anyvalRecord ((readRecord cfg env s iid).getD (blankRecord cfg s iid)) iid ballot)).emit
            (.log (.anyvalApplied iid ballot)))
  | answered {iid : Int} {r : AcceptorRecord} (read : readRecord cfg env s iid = some r)
      (value : r.value.isSome) :
      OpBranch cfg env s (.lsync iid) (sendLearnMessage (s.consult cfg iid) r)
  | refused {op : AcceptorOp} (iid : Int) : OpBranch cfg env s op (s.consult cfg iid)

theorem handleOp_branch {cfg : Config} {env : DiskEnv} {s t : AcceptorState} {op : AcceptorOp}
    (run : handleOp cfg env s op = some t) : OpBranch cfg env s op t := by
  cases op with
  | prepare msg =>
      obtain rfl := Option.some.inj run
      by_cases g : msg.Granted (readRecord cfg env s msg.iid)
      · by_cases high : s.evicted cfg msg.iid = true → readRecord cfg env s msg.iid = none →
            -1 < msg.ballot
        · rw [handlePrepare_granted high g]
          exact .granted g
        · obtain ⟨newer, missing, low⟩ : s.evicted cfg msg.iid = true ∧
              readRecord cfg env s msg.iid = none ∧ ¬ -1 < msg.ballot := by
            simpa only [not_forall, exists_prop] using high
          rw [handlePrepare_below newer missing low]
          exact .refused msg.iid
      · rw [handlePrepare_refused g]
        exact .refused msg.iid
  | accept amsg =>
      obtain rfl := Option.some.inj run
      by_cases g : amsg.Applied cfg (readRecord cfg env s amsg.iid)
      · rw [handleAccept_applied g]
        exact .applied g
      · rw [handleAccept_refused g]
        exact .refused amsg.iid
  | lsync iid =>
      obtain rfl := Option.some.inj run
      rw [handleLsync_eq]
      cases hr : readRecord cfg env s iid with
      | none => exact .refused iid
      | some r =>
          dsimp only
          split
          · next value => exact .answered hr value
          · exact .refused iid
  | anyval iid ballot =>
      have run : handleAnyval cfg env s iid ballot = some t := run
      by_cases present : s.evicted cfg iid = true → readRecord cfg env s iid ≠ none
      · by_cases g : AnyvalApplied ballot (readRecord cfg env s iid)
        · rw [handleAnyval_applied present g] at run
          obtain rfl := Option.some.inj run
          exact .opened g
        · rw [handleAnyval_refused g] at run
          obtain rfl := Option.some.inj run
          exact .refused iid
      · obtain ⟨newer, missing⟩ : s.evicted cfg iid = true ∧ readRecord cfg env s iid = none := by
          simpa using present
        rw [handleAnyval_missing newer missing] at run
        cases run

/-- What one operation can do. -/
inductive OpOutcome (cfg : Config) (env : DiskEnv) (s : AcceptorState) :
    AcceptorOp → AcceptorState → Prop where
  | promised {msg : PrepareMsg} {t : AcceptorState}
      (granted : ∀ f, s.stored msg.iid = some f → f.ballot < msg.ballot)
      (stored : t.stored =
        Function.update s.stored msg.iid (some (msg.image (s.stored msg.iid))))
      (log : t.log = .promised (msg.image (s.stored msg.iid)).promise :: s.log)
      (out : t.out = s.out.addPromise (msg.image (s.stored msg.iid)).promise) :
      OpOutcome cfg env s (.prepare msg) t
  | accepted {amsg : AcceptMsg} {t : AcceptorState}
      (applied : amsg.Applied cfg (readRecord cfg env s amsg.iid))
      (stored : t.stored = Function.update s.stored amsg.iid (some amsg.image))
      (log : t.log = .acceptApplied amsg :: s.log)
      (sent : t.sent =
        { size := sizeofLearnMsg + amsg.valueSize, data := .learn (amsg.learn s.acceptorId) } ::
          s.sent)
      (out : t.out = s.out.sendLearn
        { size := sizeofLearnMsg + amsg.valueSize, data := .learn (amsg.learn s.acceptorId) }) :
      OpOutcome cfg env s (.accept amsg) t
  | opened {iid ballot : Int} {t : AcceptorState}
      (applied : AnyvalApplied ballot (readRecord cfg env s iid))
      (stored : t.stored = Function.update s.stored iid (some (anyvalImage iid ballot)))
      (log : t.log = .anyvalApplied iid ballot :: s.log) (sent : t.sent = s.sent)
      (out : t.out = s.out) :
      OpOutcome cfg env s (.anyval iid ballot) t
  | answered {iid : Int} {t : AcceptorState} {r : AcceptorRecord}
      (read : readRecord cfg env s iid = some r) (value : r.value.isSome)
      (stored : t.stored = s.stored) (log : t.log = s.log)
      (sent : t.sent = learnPacket s.acceptorId r :: s.sent)
      (out : t.out = s.out.sendLearn (learnPacket s.acceptorId r)) :
      OpOutcome cfg env s (.lsync iid) t
  | ignored {op : AcceptorOp} {t : AcceptorState}
      (stored : t.stored = s.stored) (log : t.log = s.log) (sent : t.sent = s.sent)
      (out : t.out = s.out) :
      OpOutcome cfg env s op t

section Outcomes

variable {cfg : Config} {env : DiskEnv} {s : AcceptorState}

theorem promiseOf_eq (r : AcceptorRecord) : promiseOf r = (flatten r).promise := by
  simp only [promiseOf, FlatRecord.promise, flatten]
  split
  · rfl
  · next hsize =>
      rw [memcpy, Int.toNat_of_nonpos (Int.not_lt.mp hsize)]
      rfl

/-- The record a granted prepare writes, and its image. -/
theorem prepare_record_spec (env : DiskEnv) (coh : s.Coherent cfg) {msg : PrepareMsg}
    (wf : msg.WellFormed) :
    let r := msg.record (blankRecord cfg s msg.iid) (readRecord cfg env s msg.iid)
    r.iid = msg.iid ∧ flatten r = msg.image (s.stored msg.iid) ∧ (flatten r).Consistent ∧
      (s.evicted cfg msg.iid = false → (r.value.isSome ↔ r.valueBallot ≠ -1)) := by
  cases h : readRecord cfg env s msg.iid with
  | none =>
      rw [coh.read_none h]
      refine ⟨rfl, ?_, ?_, ?_⟩
      · simp [PrepareMsg.record, PrepareMsg.image, flatten, memcpy_zero]
      · exact ⟨by simp [PrepareMsg.record, flatten, memcpy_zero],
          fun _ => by simp [PrepareMsg.record, flatten, memcpy_zero]⟩
      · simp [PrepareMsg.record]
  | some r =>
      have hf := coh.read_some wf.iid_nonneg h
      rw [hf.stored]
      exact ⟨hf.iid_eq, rfl, ⟨hf.consistent.valueSize_eq, hf.consistent.no_value⟩, hf.value⟩

theorem AcceptorState.Coherent.image_iid (coh : s.Coherent cfg) (msg : PrepareMsg) :
    (msg.image (s.stored msg.iid)).iid = msg.iid := by
  cases hf : s.stored msg.iid with
  | none => rfl
  | some f => exact (coh.disk _ f hf).iid_eq

/-- A promise carries the ballot of its prepare. -/
@[simp] theorem PrepareMsg.image_ballot (msg : PrepareMsg) (found : Option FlatRecord) :
    (msg.image found).ballot = msg.ballot := by
  cases found <;> rfl

theorem accept_record_spec {amsg : AcceptMsg} (wf : amsg.WellFormed) (base : AcceptorRecord) :
    flatten (amsg.record base) = amsg.image ∧ (flatten (amsg.record base)).Consistent ∧
      ((amsg.record base).value.isSome ↔ (amsg.record base).valueBallot ≠ -1) := by
  have hv := memcpy_of_length wf.valueSize_eq
  have hflat : flatten (amsg.record base) = amsg.image := by
    simp [flatten, AcceptMsg.record, AcceptMsg.image, hv]
  refine ⟨hflat, ?_, ?_⟩
  · rw [hflat]
    refine ⟨wf.valueSize_eq, fun h => ?_⟩
    have := wf.ballot_nonneg
    simp only [AcceptMsg.image] at h
    omega
  · have := wf.ballot_nonneg
    simp only [AcceptMsg.record, Option.isSome_some, true_iff, ne_eq]
    omega

theorem anyval_record_spec (base : AcceptorRecord) (iid ballot : Int) :
    flatten (anyvalRecord base iid ballot) = anyvalImage iid ballot ∧
      (anyvalImage iid ballot).Consistent := by
  refine ⟨by simp [flatten, anyvalRecord, anyvalImage, memcpy_zero], ?_, ?_⟩
  · simp [anyvalImage]
  · intro _; rfl

theorem granted_iff (coh : s.Coherent cfg) {msg : PrepareMsg} (nonneg : 0 ≤ msg.iid) :
    msg.Granted (readRecord cfg env s msg.iid) ↔
      ∀ f, s.stored msg.iid = some f → f.ballot < msg.ballot := by
  rw [← coh.read_eq env nonneg]
  cases readRecord cfg env s msg.iid <;> simp [PrepareMsg.Granted, flatten]

theorem handleOp_outcome (coh : s.Coherent cfg) (puts : env.PutsSucceed) {op : AcceptorOp}
    (wf : op.WellFormed) {t : AcceptorState} (h : handleOp cfg env s op = some t) :
    t.Coherent cfg ∧ t.acceptorId = s.acceptorId ∧ OpOutcome cfg env s op t := by
  cases handleOp_branch h with
  | @granted msg granted =>
      obtain ⟨hiid, himg, hcons, hval⟩ := prepare_record_spec env coh wf
      refine ⟨?_, by simp [writeBack_frame], .promised ((granted_iff coh wf.iid_nonneg).mp granted)
        ?_ ?_ ?_⟩
      · exact (coh.writeBack puts wf.iid_nonneg hiid hcons hval).congr (by simp) (by simp)
      · rw [← himg, ← writeBack_stored cfg puts hiid]
        exact stored_of_accDb (by simp)
      · simp only [addPromiseToSendBuffer_frame, writeBack_frame, promiseOf_eq, himg]
      · rw [addPromiseToSendBuffer_out, writeBack_out, promiseOf_eq, himg]
  | @applied amsg applied =>
      obtain ⟨hflat, hcons, hval⟩ := accept_record_spec wf
        (acceptBase (blankRecord cfg s amsg.iid) (readRecord cfg env s amsg.iid))
      have hiid : (amsg.record (acceptBase (blankRecord cfg s amsg.iid)
        (readRecord cfg env s amsg.iid))).iid = amsg.iid := rfl
      refine ⟨?_, by simp [writeBack_frame], .accepted applied ?_ ?_ ?_ ?_⟩
      · exact (coh.writeBack puts wf.iid_nonneg hiid hcons fun _ => hval).congr
          (by simp) (by simp)
      · rw [← hflat, ← writeBack_stored cfg puts hiid]
        exact stored_of_accDb (by simp)
      · simp [writeBack_frame, Effect.logged?]
      · simp [writeBack_frame, Effect.sent?, learnOf, AcceptMsg.learn, AcceptMsg.record,
          memcpy_of_length wf.valueSize_eq]
      · rw [sendLearnMessage_out, emit_out _ rfl, diskForceSyncrony_out, writeBack_out]
        simp [writeBack_frame, learnPacket, learnOf, AcceptMsg.learn, AcceptMsg.record,
          memcpy_of_length wf.valueSize_eq]
  | @opened iid ballot applied =>
      obtain ⟨hflat, hcons⟩ := anyval_record_spec
        ((readRecord cfg env s iid).getD (blankRecord cfg s iid)) iid ballot
      refine ⟨?_, by simp [writeBack_frame], .opened applied ?_ ?_ ?_ ?_⟩
      · exact (coh.writeBack puts wf.1 rfl (hflat ▸ hcons)
          fun _ => by simp [anyvalRecord]).congr (by simp) (by simp)
      · rw [← hflat]
        exact writeBack_stored cfg puts rfl
      · simp [writeBack_frame, Effect.logged?]
      · simp [writeBack_frame, Effect.sent?]
      · rw [emit_out _ rfl, writeBack_out]
  | answered read value =>
      exact ⟨coh.congr (by simp) (by simp), by simp,
        .answered read value (stored_of_accDb (by simp)) (by simp) (by simp [learnPacket])
          (by rw [sendLearnMessage_out, consult_out, consult_frame.2.2.1])⟩
  | refused iid =>
      exact ⟨coh.consult, by simp,
        .ignored consult_stored (by simp) (by simp) (consult_out cfg s _)⟩

end Outcomes

section StoreInvariants

variable {cfg : Config} {env : DiskEnv} {cond : AcceptorState → AcceptorOp → Prop}

theorem acceptorStart_coherent (cfg : Config) (id : Int) : (acceptorStart id).Coherent cfg := by
  refine ⟨fun k => .inl rfl, fun iid f hf => ?_⟩
  cases hf

theorem acceptor_coherent (puts : env.PutsSucceed) {s : AcceptorState}
    (h : Reachable (acceptorSystem cfg env) (MessageMeets cfg env cond) s) : s.Coherent cfg := by
  refine acceptor_invariant (fun s => s.Coherent cfg) ?_ ?_ ?_ ?_ h
  · exact acceptorStart_coherent cfg
  · intro s coh
    exact coh.congr (by simp) (by simp)
  · intro s op t wf coh _ run
    exact (handleOp_outcome coh puts wf run).1
  · intro s coh _
    exact coh.congr (by simp) (by simp)

/-- A property of the store and the debug log is preserved by a run as soon as
the outcomes of the single operations preserve it. -/
theorem store_invariant (puts : env.PutsSucceed)
    (Inv : (Int → Option FlatRecord) → List LogLine → Prop)
    (start : Inv (fun _ => none) [])
    (step : ∀ s op t, s.Coherent cfg → op.WellFormed → Inv s.stored s.log → cond s op →
      OpOutcome cfg env s op t → Inv t.stored t.log)
    {s : AcceptorState}
    (h : Reachable (acceptorSystem cfg env) (MessageMeets cfg env cond) s) :
    Inv s.stored s.log := by
  suffices s.Coherent cfg ∧ Inv s.stored s.log from this.2
  have frame : ∀ {s t : AcceptorState}, t.acceptorArray = s.acceptorArray → t.accDb = s.accDb →
      t.log = s.log → s.Coherent cfg ∧ Inv s.stored s.log →
        t.Coherent cfg ∧ Inv t.stored t.log := by
    intro s t harr hdb hlog ⟨coh, inv⟩
    refine ⟨coh.congr harr hdb, ?_⟩
    rw [stored_of_accDb hdb, hlog]
    exact inv
  refine acceptor_invariant (fun s => s.Coherent cfg ∧ Inv s.stored s.log) ?_ ?_ ?_ ?_ h
  · intro id
    exact ⟨acceptorStart_coherent cfg id, start⟩
  · intro s inv
    exact frame (by simp) (by simp) (by simp) inv
  · intro s op t wf ⟨coh, inv⟩ meets run
    obtain ⟨coh', _, outcome⟩ := handleOp_outcome coh puts wf run
    exact ⟨coh', step s op t coh wf inv meets outcome⟩
  · intro s inv _
    exact frame (by simp) (by simp) (by simp) inv

end StoreInvariants
end LibFastPaxos
