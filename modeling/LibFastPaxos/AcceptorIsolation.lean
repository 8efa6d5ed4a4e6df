import LibFastPaxos.AcceptorMissing
import LibFastPaxos.ReferenceAcceptor
import LibFastPaxos.Lib.Refinement

/-!
An acceptor is a family of acceptors of one instance each. What it stores, logs and
answers for an instance depends on the operations for that instance alone, as long as
eviction, the one thing that instances share, does not show.
-/

namespace LibFastPaxos

open Transition

def LogLine.iid : LogLine → Int
  | .promised p => p.iid
  | .acceptApplied m => m.iid
  | .anyvalApplied iid _ => iid

/-- The learn of the datagram, if it is one for the instance. -/
def PaxosMsg.learnFor (iid : Int) (msg : PaxosMsg) : Option LearnMsg :=
  match msg.data with
  | .learn l => if l.iid = iid then some l else none
  | _ => none

/-! ### An acceptor of one instance -/

/-- Its record, and what it has logged and answered so far, newest first. -/
structure InstanceAcceptor where
  acceptorId : Int
  record : Option AcceptorRecord
  lines : List LogLine
  learns : List LearnMsg

namespace InstanceAcceptor

open ReferenceAcceptor (blank)

def start (acceptorId : Int) : InstanceAcceptor where
  acceptorId := acceptorId
  record := none
  lines := []
  learns := []

def write (a : InstanceAcceptor) (r : AcceptorRecord) (line : LogLine) : InstanceAcceptor :=
  { a with record := some r, lines := line :: a.lines }

def sendLearn (a : InstanceAcceptor) (r : AcceptorRecord) : InstanceAcceptor :=
  { a with learns := learnOf a.acceptorId r :: a.learns }

def handleOp (cfg : Config) (a : InstanceAcceptor) : AcceptorOp → InstanceAcceptor
  | .prepare msg =>
      let r := msg.record blank a.record
      if a.record.all fun r => r.ballot < msg.ballot then a.write r (.promised (promiseOf r))
      else a
  | .accept amsg =>
      let r := amsg.record (acceptBase blank a.record)
      if a.record.elim (decide (cfg.minBallot ≤ amsg.ballot)) (acceptAllowed cfg · amsg.ballot)
      then (a.write r (.acceptApplied amsg)).sendLearn r
      else a
  | .lsync _ =>
      match a.record with
      | some r => if r.value.isSome then a.sendLearn r else a
      | none => a
  | .anyval iid ballot =>
      if a.record.all (anyvalAllowed · ballot) then
        a.write (anyvalRecord (a.record.getD blank) iid ballot) (.anyvalApplied iid ballot)
      else a

end InstanceAcceptor

/-! ### One instance of the reference -/

def ReferenceAcceptor.view (iid : Int) (ref : ReferenceAcceptor) : InstanceAcceptor where
  acceptorId := ref.out.acceptorId
  record := ref.records iid
  lines := ref.log.filter fun line => line.iid = iid
  learns := ref.out.sent.filterMap (PaxosMsg.learnFor iid)

section Views

variable {cfg : Config} {ref : ReferenceAcceptor} {iid : Int}

/-- Promises and their batches are no learns. -/
theorem addPromise_view (o : Outbox) (p : PromiseMsg) :
    (o.addPromise p).acceptorId = o.acceptorId ∧
      (o.addPromise p).sent.filterMap (PaxosMsg.learnFor iid) =
        o.sent.filterMap (PaxosMsg.learnFor iid) := by
  simp only [Outbox.addPromise, Outbox.makeRoom]
  split <;> split <;> exact ⟨rfl, rfl⟩

theorem view_write (ref : ReferenceAcceptor) (iid : Int) (r : AcceptorRecord) (line : LogLine)
    (about : line.iid = r.iid) :
    (ref.write r line).view iid = if iid = r.iid then (ref.view iid).write r line
      else ref.view iid := by
  by_cases h : iid = r.iid
  · subst h
    simp [ReferenceAcceptor.view, ReferenceAcceptor.write, InstanceAcceptor.write, about]
  · have hne : ¬ line.iid = iid := fun heq => h (heq.symm.trans about)
    simp [ReferenceAcceptor.view, ReferenceAcceptor.write, h, hne]

theorem view_sendLearn (ref : ReferenceAcceptor) (iid : Int) (r : AcceptorRecord) :
    ({ ref with out := ref.out.sendLearn (learnPacket ref.out.acceptorId r) } :
      ReferenceAcceptor).view iid =
      if iid = r.iid then (ref.view iid).sendLearn r else ref.view iid := by
  have hiid : (learnOf ref.out.acceptorId r).iid = r.iid := rfl
  by_cases h : iid = r.iid
  · subst h
    simp [ReferenceAcceptor.view, InstanceAcceptor.sendLearn, Outbox.sendLearn,
      PaxosMsg.learnFor, learnPacket, hiid]
  · simp [ReferenceAcceptor.view, Outbox.sendLearn, PaxosMsg.learnFor, learnPacket, hiid, h,
      Ne.symm h]

theorem view_out (ref : ReferenceAcceptor) {o : Outbox} (same : o.acceptorId = ref.out.acceptorId ∧
    o.sent.filterMap (PaxosMsg.learnFor iid) =
      ref.out.sent.filterMap (PaxosMsg.learnFor iid)) :
    ({ ref with out := o } : ReferenceAcceptor).view iid = ref.view iid := by
  simp only [ReferenceAcceptor.view, same.1, same.2]

theorem ReferenceAcceptor.Accounted.prepared_iid (acc : ref.Accounted) (msg : PrepareMsg) :
    (msg.record blank (ref.records msg.iid)).iid = msg.iid := by
  cases hr : ref.records msg.iid with
  | none => rfl
  | some r => exact (acc.present msg.iid r hr).iid_eq

theorem view_prepare (acc : ref.Accounted) (msg : PrepareMsg) :
    (ref.prepare msg).view iid =
      if iid = msg.iid then (ref.view iid).handleOp cfg (.prepare msg) else ref.view iid := by
  have hiid := acc.prepared_iid msg
  simp only [ReferenceAcceptor.prepare]
  split
  · next granted =>
      refine (view_out (ref.write (msg.record ReferenceAcceptor.blank (ref.records msg.iid)) _)
        (addPromise_view ref.out _)).trans ?_
      rw [view_write ref iid _ _ rfl, hiid]
      split
      · next own =>
          subst own
          exact (if_pos granted).symm
      · rfl
  · next refused =>
      split
      · next own =>
          subst own
          exact (if_neg refused).symm
      · rfl

theorem view_accept (amsg : AcceptMsg) :
    (ref.accept cfg amsg).view iid =
      if iid = amsg.iid then (ref.view iid).handleOp cfg (.accept amsg) else ref.view iid := by
  simp only [ReferenceAcceptor.accept]
  split
  · next applied =>
      refine (view_sendLearn (ref.write
        (amsg.record (acceptBase ReferenceAcceptor.blank (ref.records amsg.iid)))
        (.acceptApplied amsg)) iid _).trans ?_
      rw [view_write ref iid _ _ rfl]
      split
      · next own =>
          have own : iid = amsg.iid := own
          subst own
          rw [if_pos rfl]
          exact (if_pos applied).symm
      · next other => exact (if_neg other).symm
  · next refused =>
      split
      · next own =>
          subst own
          exact (if_neg refused).symm
      · rfl

theorem view_lsync (acc : ref.Accounted) (i : Int) :
    (ref.lsync i).view iid =
      if iid = i then (ref.view iid).handleOp cfg (.lsync i) else ref.view iid := by
  have hrecord : (ref.view i).record = ref.records i := rfl
  simp only [ReferenceAcceptor.lsync, InstanceAcceptor.handleOp]
  cases hr : ref.records i with
  | none =>
      by_cases own : iid = i
      · subst own
        rw [if_pos rfl, hrecord, hr]
      · rw [if_neg own]
  | some r =>
      have hiid := (acc.present i r hr).iid_eq
      by_cases own : iid = i
      · subst own
        rw [if_pos rfl, hrecord, hr]
        dsimp only
        split
        · rw [view_sendLearn ref iid r, if_pos hiid.symm]
        · rfl
      · rw [if_neg own]
        dsimp only
        split
        · rw [view_sendLearn ref iid r, if_neg (hiid ▸ own)]
        · rfl

theorem view_anyval (i ballot : Int) :
    (ref.anyval i ballot).view iid =
      if iid = i then (ref.view iid).handleOp cfg (.anyval i ballot) else ref.view iid := by
  simp only [ReferenceAcceptor.anyval]
  split
  · next applied =>
      rw [view_write ref iid _ _ rfl]
      split
      · next own =>
          have own : iid = i := own
          subst own
          rw [if_pos rfl]
          exact (if_pos applied).symm
      · next other => exact (if_neg other).symm
  · next refused =>
      split
      · next own =>
          subst own
          exact (if_neg refused).symm
      · rfl

theorem view_handleOp (acc : ref.Accounted) (op : AcceptorOp) :
    (ref.handleOp cfg op).view iid =
      if iid = op.iid then (ref.view iid).handleOp cfg op else ref.view iid := by
  cases op with
  | prepare msg => exact view_prepare acc msg
  | accept amsg => exact view_accept amsg
  | lsync i => exact view_lsync acc i
  | anyval i ballot => exact view_anyval i ballot

end Views

/-! ### Runs -/

section Runs

variable {cfg : Config} {env : DiskEnv} {ref : ReferenceAcceptor}

/-- The operations for the instance. -/
def opsFor (iid : Int) (ops : List AcceptorOp) : List AcceptorOp :=
  ops.filter fun op => op.iid = iid

theorem reference_projects (cfg : Config) (iid : Int) :
    Projects (ReferenceAcceptor.handleOp cfg) (InstanceAcceptor.handleOp cfg)
      (ReferenceAcceptor.view iid) ReferenceAcceptor.Accounted AcceptorOp.WellFormed
      fun op => op.iid = iid := by
  refine ⟨fun ref op wf acc => acc.handleOp cfg wf, ?_, ?_⟩
  · intro ref op _ acc own
    rw [view_handleOp acc, if_pos (of_decide_eq_true own).symm]
  · intro ref op _ acc other
    rw [view_handleOp acc, if_neg (Ne.symm (of_decide_eq_false other))]

theorem view_handleMessage (acc : ref.Accounted) {msg : PaxosMsg} (wf : msg.data.WellFormed)
    (iid : Int) :
    (ref.handleMessage cfg msg).Accounted ∧
      (ref.handleMessage cfg msg).view iid =
        (opsFor iid msg.data.ops).foldl (InstanceAcceptor.handleOp cfg) (ref.view iid) := by
  have hopen : (ref.openMessage msg.data).Accounted ∧
      (ref.openMessage msg.data).view iid = ref.view iid := by
    cases hd : msg.data with
    | prepare b => exact ⟨⟨acc.absent, acc.present⟩, rfl⟩
    | accept _ | lsync _ | promise _ | learn _ | anyval _ => exact ⟨acc, rfl⟩
  obtain ⟨hacc, hview⟩ :=
    (reference_projects cfg iid).run (PaxosData.ops_wellFormed wf) hopen.1
  rw [hopen.2] at hview
  simp only [ReferenceAcceptor.handleMessage]
  cases hd : msg.data with
  | prepare b =>
      rw [hd] at hacc hview
      simp only [ReferenceAcceptor.closeMessage]
      split
      · exact ⟨⟨hacc.absent, hacc.present⟩, hview⟩
      · exact ⟨hacc, hview⟩
  | accept _ | lsync _ | promise _ | learn _ | anyval _ =>
      rw [hd] at hacc hview
      exact ⟨hacc, hview⟩

theorem view_run (cfg : Config) (iid : Int) {msgs : List PaxosMsg}
    (wf : ∀ msg ∈ msgs, msg.data.WellFormed)
    (acc : ref.Accounted) :
    (msgs.foldl (ReferenceAcceptor.handleMessage cfg) ref).view iid =
      (opsFor iid (msgs.flatMap fun msg => msg.data.ops)).foldl (InstanceAcceptor.handleOp cfg)
        (ref.view iid) := by
  induction msgs generalizing ref with
  | nil => rfl
  | cons msg msgs ih =>
      obtain ⟨hacc, hview⟩ := view_handleMessage acc (wf msg List.mem_cons_self) iid
      rw [List.foldl_cons, ih (fun m hm => wf m (List.mem_cons_of_mem msg hm)) hacc, hview,
        List.flatMap_cons, opsFor, opsFor, opsFor, List.filter_append, List.foldl_append]

theorem RunMeets.wellFormed {cond : AcceptorState → AcceptorOp → Prop} {s t : AcceptorState}
    {msgs : List PaxosMsg} (meets : RunMeets cfg env cond s msgs)
    (run : runMessages cfg env s msgs = some t) : ∀ msg ∈ msgs, msg.data.WellFormed := by
  induction msgs generalizing s with
  | nil => exact fun msg h => absurd h List.not_mem_nil
  | cons m msgs ih =>
      rw [runMessages, List.foldlM_cons] at run
      obtain ⟨u, hu, rest⟩ := Option.bind_eq_some_iff.mp run
      intro msg hmsg
      cases List.mem_cons.mp hmsg with
      | inl heq => exact heq ▸ meets.1.1
      | inr hrest => exact ih (meets.2 u hu) rest msg hrest

/-- For each instance, an acceptor stores, logs and learns what an acceptor of that instance
alone does with the operations for it. -/
theorem instances_independent (puts : env.PutsSucceed) (id : Int) {msgs : List PaxosMsg}
    (sound : RunMeets cfg env (CacheSound cfg env) (acceptorStart id) msgs) :
    ∃ s, runMessages cfg env (acceptorStart id) msgs = some s ∧ ∀ iid,
      let a := (opsFor iid (msgs.flatMap fun msg => msg.data.ops)).foldl
        (InstanceAcceptor.handleOp cfg) (.start id)
      s.stored iid = a.record.map flatten ∧
        s.log.filter (fun line => line.iid = iid) = a.lines ∧
        s.sent.filterMap (PaxosMsg.learnFor iid) = a.learns := by
  obtain ⟨s, run, sim⟩ := acceptor_refines_reference puts id sound
  refine ⟨s, run, fun iid => ?_⟩
  have hview := view_run cfg iid (sound.wellFormed run) (simulated_start cfg id).accounted
  have hsent : s.sent = _ := congrArg Outbox.sent sim.refines.out
  refine ⟨?_, ?_, ?_⟩
  · rw [sim.refines.records]
    exact congrArg (fun a => a.record.map flatten) hview
  · rw [sim.refines.log]
    exact congrArg InstanceAcceptor.lines hview
  · rw [hsent]
    exact congrArg InstanceAcceptor.learns hview

end Runs

/-- The accept of instance 1, which takes the slot of instance 0, does not show there. -/
theorem instances_independent_evictedPrepare :
    ∃ s, runMessages (Config.shipped.withAcceptorArraySize oneSlot) quietDisk (acceptorStart 0)
        evictedPrepareRun = some s ∧
      s.stored 0 = some ⟨0, 30, 20, 1, [7]⟩ ∧
      s.sent.filterMap (PaxosMsg.learnFor 0) = [⟨0, 0, 20, 3, 1, [7]⟩] := by
  obtain ⟨s, run, alone⟩ := instances_independent quietDisk_putsSucceed 0
    (evictedPrepareRun_cacheSound oneSlot (.inl rfl))
  obtain ⟨hstored, -, hlearns⟩ := alone 0
  exact ⟨s, run, hstored.trans (by decide), hlearns.trans (by decide)⟩

end LibFastPaxos
