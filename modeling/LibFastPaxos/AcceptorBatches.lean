import LibFastPaxos.AcceptorRuns

/-!
What an acceptor promises is what it sends. A prepare batch packs its promises
into one packet or several, and when it ends the packets carry every promise of
the debug log, each once and in the order in which it was made.
-/

namespace LibFastPaxos

open Transition

def LogLine.promise? : LogLine → Option PromiseMsg
  | .promised p => some p
  | _ => none

/-- The promises in a datagram, newest first. -/
def PaxosMsg.promises (msg : PaxosMsg) : List PromiseMsg :=
  match msg.data with
  | .promise batch => batch.data.reverse
  | _ => []

/-- The promises sent so far, newest first. -/
def AcceptorState.promisesSent (s : AcceptorState) : List PromiseMsg :=
  s.sent.flatMap PaxosMsg.promises

/-- The promises of the debug log, newest first. -/
def promisesLogged (log : List LogLine) : List PromiseMsg := log.filterMap LogLine.promise?

def Outbox.promisesSent (o : Outbox) : List PromiseMsg := o.sent.flatMap PaxosMsg.promises

/-- While a prepare batch is handled: the promises that wait and those sent are those
of the debug log. -/
structure BatchPacked (log : List LogLine) (o : Outbox) : Prop where
  started : 0 < o.sendBufferSize
  count_eq : o.promiseBatch.count = o.promiseBatch.data.length
  promises : o.promiseBatch.data.reverse ++ o.promisesSent = promisesLogged log

section BatchPacked

variable {cfg : Config} {env : DiskEnv} {log : List LogLine} {o : Outbox}

theorem flush_promisesSent (o : Outbox) :
    o.flush.promisesSent = o.promiseBatch.data.reverse ++ o.promisesSent :=
  rfl

theorem BatchPacked.makeRoom (h : BatchPacked log o) (size : Int) :
    BatchPacked log (o.makeRoom size) := by
  have hstarted := h.started
  simp only [Outbox.makeRoom]
  split
  · rw [if_pos (show o.flush.sendBufferSize = 0 from rfl)]
    refine ⟨?_, rfl, ?_⟩
    · simp [Outbox.reset, sizeofPaxosMsg, sizeofPromiseBatchMsg]
    rw [← h.promises, ← flush_promisesSent]
    rfl
  · rw [if_neg (by omega)]
    exact h

theorem BatchPacked.addPromise (h : BatchPacked log o) {p : PromiseMsg} (size : 0 ≤ p.valueSize) :
    BatchPacked (.promised p :: log) (o.addPromise p) := by
  obtain ⟨hstarted, hcount, hpromises⟩ := h.makeRoom (sizeofPromiseMsg + p.valueSize)
  refine ⟨?_, ?_, ?_⟩
  · simp only [Outbox.addPromise, sizeofPromiseMsg] at hstarted ⊢
    omega
  · simp [Outbox.addPromise, hcount]
  · simp only [Outbox.addPromise, List.reverse_append, List.reverse_cons, List.reverse_nil,
      List.nil_append, List.cons_append]
    exact congrArg (p :: ·) hpromises

/-- A prepare batch is packed from its first promise to its last. -/
theorem BatchPacked.step {s t : AcceptorState} (coh : s.Coherent cfg) (puts : env.PutsSucceed)
    (h : BatchPacked s.log s.out) {msg : PrepareMsg} (wf : (AcceptorOp.prepare msg).WellFormed)
    (run : handleOp cfg env s (.prepare msg) = some t) : BatchPacked t.log t.out := by
  obtain ⟨-, -, outcome⟩ := handleOp_outcome coh puts wf run
  cases outcome with
  | promised granted stored log out =>
      rw [log, out]
      apply h.addPromise
      obtain ⟨-, himage, hconsistent, -⟩ := prepare_record_spec env coh wf
      rw [himage] at hconsistent
      have hsize := hconsistent.valueSize_eq
      change 0 ≤ (msg.image (s.stored msg.iid)).valueSize
      omega
  | ignored stored log sent out =>
      rw [log, out]
      exact h

end BatchPacked

/-- Between messages nothing waits. -/
def AllSent (s : AcceptorState) : Prop := s.promisesSent = promisesLogged s.log

section Runs

variable {cfg : Config} {env : DiskEnv} {s t : AcceptorState}

theorem AllSent.prepareBatch (coh : s.Coherent cfg) (puts : env.PutsSucceed) (h : AllSent s)
    {b : PrepareBatchMsg} (wf : b.WellFormed) : AllSent (handlePrepareBatch cfg env s b) := by
  have hopen : BatchPacked (resetPromiseBatch s).log (resetPromiseBatch s).out := by
    refine ⟨?_, rfl, h⟩
    simp [AcceptorState.out, resetPromiseBatch, sizeofPaxosMsg, sizeofPromiseBatchMsg]
  have hstep : ∀ ps : List PrepareMsg, (∀ p ∈ ps, p.WellFormed) → ∀ u : AcceptorState,
      u.Coherent cfg → BatchPacked u.log u.out →
      BatchPacked (ps.foldl (handlePrepare cfg env) u).log
        (ps.foldl (handlePrepare cfg env) u).out := by
    intro ps
    induction ps with
    | nil => exact fun _ u _ hu => hu
    | cons p ps ih =>
        intro hps u hcoh hu
        have hp : (AcceptorOp.prepare p).WellFormed := hps p List.mem_cons_self
        have hrun : handleOp cfg env u (.prepare p) = some (handlePrepare cfg env u p) := rfl
        apply ih fun q hq => hps q (List.mem_cons_of_mem p hq)
        · exact (handleOp_outcome hcoh puts hp hrun).1
        · exact hu.step hcoh puts hp hrun
  have hpacked := hstep (b.data.take b.count.toNat)
    (fun p hp => wf.entries p (List.mem_of_mem_take hp)) (resetPromiseBatch s)
    (coh.congr rfl rfl) hopen
  simp only [handlePrepareBatch]
  generalize (b.data.take b.count.toNat).foldl (handlePrepare cfg env) (resetPromiseBatch s) = u
    at hpacked ⊢
  obtain ⟨-, hcount, hpromises⟩ := hpacked
  split
  · simp only [AllSent]
    have hsent : (flushSendBuffer (diskForceSyncrony cfg env u)).promisesSent =
        u.promiseBatch.data.reverse ++ u.promisesSent := by
      simp [AcceptorState.promisesSent, PaxosMsg.promises]
    rw [hsent, (flushSendBuffer_frame _).2.2.2.2, (diskForceSyncrony_frame cfg env u).2.2.2.2.1]
    exact hpromises
  · next hempty =>
      have hdata : u.promiseBatch.data = [] := by
        have hcount : u.promiseBatch.count = u.promiseBatch.data.length := hcount
        apply List.length_eq_zero_iff.mp
        omega
      have hpromises : u.promiseBatch.data.reverse ++ u.promisesSent = promisesLogged u.log :=
        hpromises
      rw [hdata] at hpromises
      exact hpromises

/-- The other messages promise nothing. -/
theorem AllSent.step (coh : s.Coherent cfg) (puts : env.PutsSucceed) (h : AllSent s)
    {op : AcceptorOp} (wf : op.WellFormed) (noPrepare : ∀ msg, op ≠ .prepare msg)
    (run : handleOp cfg env s op = some t) : AllSent t := by
  obtain ⟨-, -, outcome⟩ := handleOp_outcome coh puts wf run
  unfold AllSent AcceptorState.promisesSent at *
  cases outcome with
  | promised granted stored log out => exact absurd rfl (noPrepare _)
  | accepted applied stored log sent out =>
      rw [log, sent]
      exact h
  | opened applied stored log sent out =>
      rw [log, sent]
      exact h
  | answered read value stored log sent out =>
      rw [log, sent]
      exact h
  | ignored stored log sent out =>
      rw [log, sent]
      exact h

theorem AllSent.message (coh : s.Coherent cfg) (puts : env.PutsSucceed) (h : AllSent s)
    {msg : PaxosMsg} (wf : msg.data.WellFormed) (run : handleMessage cfg env s msg = some t) :
    AllSent t := by
  by_cases hprepare : ∃ b, msg.data = .prepare b
  · obtain ⟨b, hdata⟩ := hprepare
    rw [hdata] at wf
    simp only [handleMessage, hdata] at run
    obtain rfl := Option.some.inj run
    exact h.prepareBatch coh puts wf
  · have hother : ∀ b, msg.data ≠ .prepare b := fun b hb => hprepare ⟨b, hb⟩
    rw [handleMessage_eq] at run
    obtain ⟨u, hu, rfl⟩ := Option.map_eq_some_iff.mp run
    have hopen : openMessage s msg.data = s := by
      cases hdata : msg.data with
      | prepare b => exact absurd hdata (hother b)
      | accept _ | lsync _ | anyval _ | promise _ | learn _ => rfl
    have hclose : closeMessage cfg env u msg.data = u := by
      cases hdata : msg.data with
      | prepare b => exact absurd hdata (hother b)
      | accept _ | lsync _ | anyval _ | promise _ | learn _ => rfl
    rw [hclose]
    rw [hopen] at hu
    have hmeets : Meets (handleOp cfg env) (fun _ _ => True) s msg.data.ops :=
      Meets.of_forall (fun _ _ => trivial) _ _
    have hinv := Meets.invariant
      (P := fun op => op.WellFormed ∧ ∀ p, op ≠ .prepare p)
      (fun u => u.Coherent cfg ∧ AllSent u) ?_
      (fun op hop => ⟨PaxosData.ops_wellFormed wf op hop, ops_noPrepare hother op hop⟩)
      ⟨coh, h⟩ hmeets hu
    · exact hinv.2
    · rintro v op w ⟨hwf, hno⟩ ⟨hcoh, hall⟩ _ hrun
      exact ⟨(handleOp_outcome hcoh puts hwf hrun).1, hall.step hcoh puts hwf hno hrun⟩

/-- At the end of every message what was promised has been sent, in the same order. -/
theorem promises_all_sent (puts : env.PutsSucceed) {guard : AcceptorState → PaxosMsg → Prop}
    (h : Reachable (acceptorSystem cfg env) guard s) : AllSent s := by
  refine Reachable.invariant ?_ ?_ h
  · intro s ⟨id, hs⟩
    subst hs
    rfl
  · intro s msg t before hall _ ⟨wf, run⟩
    have hbefore : Reachable (acceptorSystem cfg env) (MessageMeets cfg env fun _ _ => True) s :=
      before.mono fun u msg _ => Meets.of_forall (fun _ _ => trivial) _ _
    exact hall.message (acceptor_coherent puts hbefore) puts wf run

end Runs
end LibFastPaxos
