import LibFastPaxos.AcceptorLearns

/-!
What is behind the datagrams of an acceptor. Every promise in a batch was logged
by the acceptor that the batch names, a value in it is that of an accept it
applied, and a learn repeats such an accept as far as the record that an lsync
is answered from can be trusted. No batch goes out empty.
-/

namespace LibFastPaxos

open Transition

/-- An image with a value holds the accept applied last. -/
structure ValuesHeld (stored : Int → Option FlatRecord) (log : List LogLine) : Prop where
  held : ∀ iid f, stored iid = some f → f.valueBallot ≠ -1 →
    ∃ m, lastAccept iid log = some m ∧ f.Holds (some m)
  accepts : AcceptsWellFormed log

section Held

variable {cfg : Config} {env : DiskEnv} {s t : AcceptorState}

theorem ValuesHeld.update {stored : Int → Option FlatRecord} {log : List LogLine}
    {line : LogLine} {iid : Int} {f : FlatRecord} (h : ValuesHeld stored log)
    (own : f.valueBallot ≠ -1 → ∃ m, lastAccept iid (line :: log) = some m ∧ f.Holds (some m))
    (other : ∀ i, i ≠ iid → line.acceptFor i = none)
    (wf : ∀ m, line = .acceptApplied m → m.WellFormed) :
    ValuesHeld (Function.update stored iid (some f)) (line :: log) := by
  constructor
  · intro i g hg hv
    by_cases hi : i = iid
    · subst hi
      rw [Function.update_self] at hg
      cases hg
      exact own hv
    · rw [Function.update_of_ne hi] at hg
      rw [lastAccept_cons_of_none (other i hi)]
      exact h.held i g hg hv
  · intro m hm
    cases List.mem_cons.mp hm with
    | inl heq => exact wf m heq.symm
    | inr hmem => exact h.accepts m hmem

theorem ValuesHeld.step {op : AcceptorOp} (wf : op.WellFormed) (h : ValuesHeld s.stored s.log)
    (outcome : OpOutcome cfg env s op t) : ValuesHeld t.stored t.log := by
  cases outcome with
  | @promised msg _ granted stored log =>
      rw [stored, log]
      apply h.update
      · rw [lastAccept_cons_of_none rfl]
        cases hf : s.stored msg.iid with
        | none => exact fun hv => absurd rfl hv
        | some f => exact fun hv => h.held msg.iid f hf hv
      · intro i _
        rfl
      · intro m hm
        cases hm
  | @accepted amsg _ applied stored log =>
      rw [stored, log]
      apply h.update
      · intro _
        exact ⟨amsg, lastAccept_cons_self amsg, rfl, rfl, rfl⟩
      · intro i hi
        simp [LogLine.acceptFor, Ne.symm hi]
      · intro m hm
        cases hm
        exact wf
  | opened applied stored log =>
      rw [stored, log]
      apply h.update
      · exact fun hv => absurd rfl hv
      · intro i _
        rfl
      · intro m hm
        cases hm
  | answered read value stored log | ignored stored log =>
      rw [stored, log]
      exact h

/-- No image is bigger than the biggest value. -/
theorem ValuesHeld.valueSize_le (h : ValuesHeld s.stored s.log) (coh : s.Coherent cfg)
    {iid : Int} {f : FlatRecord} (stored : s.stored iid = some f) :
    f.valueSize ≤ paxosMaxValueSize := by
  have hconsistent := (coh.disk iid f stored).consistent
  by_cases hv : f.valueBallot = -1
  · rw [hconsistent.valueSize_eq, hconsistent.no_value hv]
    simp [paxosMaxValueSize]
  · obtain ⟨m, hlast, -, hsize, -⟩ := h.held iid f stored hv
    have hm := (h.accepts m (lastAccept_mem hlast).1).valueSize_le
    have hsize : f.valueSize = m.valueSize := hsize
    omega

/-- A promise with a value reports the accept applied last. -/
theorem ValuesHeld.prepare_image (h : ValuesHeld s.stored s.log) (msg : PrepareMsg)
    (valued : (msg.image (s.stored msg.iid)).valueBallot ≠ -1) :
    ∃ m, lastAccept msg.iid s.log = some m ∧
      (msg.image (s.stored msg.iid)).Holds (some m) := by
  cases hf : s.stored msg.iid with
  | none =>
      rw [hf] at valued
      exact absurd rfl valued
  | some f =>
      rw [hf] at valued
      exact h.held msg.iid f hf valued

end Held

/-- A promise with a value repeats an accept of the debug log. -/
structure PromiseMsg.Backed (log : List LogLine) (p : PromiseMsg) : Prop where
  iid_nonneg : 0 ≤ p.iid
  reports : p.valueBallot ≠ -1 →
    ∃ m, LogLine.acceptApplied m ∈ log ∧ m.iid = p.iid ∧ p.Reports (some m)

theorem PromiseMsg.Backed.mono {log log' : List LogLine} {p : PromiseMsg} (h : p.Backed log)
    (sub : log ⊆ log') : p.Backed log' := by
  refine ⟨h.iid_nonneg, fun valued => ?_⟩
  obtain ⟨m, hm, rest⟩ := h.reports valued
  exact ⟨m, sub hm, rest⟩

/-- Every promise of the debug log is backed by it. -/
def PromisesBacked (log : List LogLine) : Prop := ∀ p, LogLine.promised p ∈ log → p.Backed log

theorem PromisesBacked.step {cfg : Config} {env : DiskEnv} {s t : AcceptorState}
    {op : AcceptorOp} (coh : s.Coherent cfg) (wf : op.WellFormed)
    (held : ValuesHeld s.stored s.log) (h : PromisesBacked s.log)
    (outcome : OpOutcome cfg env s op t) : PromisesBacked t.log := by
  cases outcome with
  | @promised msg _ granted stored log =>
      rw [log]
      intro p hp
      cases List.mem_cons.mp hp with
      | inl heq =>
          cases heq
          have hiid := coh.image_iid msg
          refine ⟨?_, fun valued => ?_⟩
          · have := wf.iid_nonneg
            have hp : (msg.image (s.stored msg.iid)).promise.iid = msg.iid := hiid
            omega
          obtain ⟨m, hlast, hholds⟩ := held.prepare_image msg valued
          obtain ⟨hm, hmiid⟩ := lastAccept_mem hlast
          exact ⟨m, List.mem_cons_of_mem _ hm, hmiid.trans hiid.symm, hholds⟩
      | inr hold => exact (h p hold).mono (List.subset_cons_self _ _)
  | accepted applied stored log | opened applied stored log =>
      rw [log]
      intro p hp
      exact (h p (by simpa using hp)).mono (List.subset_cons_self _ _)
  | answered read value stored log | ignored stored log =>
      rw [log]
      exact h

/-- A new acceptor holds nothing and has promised nothing. -/
theorem held_backed_start : ValuesHeld (fun _ => none) [] ∧ PromisesBacked [] :=
  ⟨⟨nofun, nofun⟩, nofun⟩

theorem promises_backed {cfg : Config} {env : DiskEnv} (puts : env.PutsSucceed)
    {cond : AcceptorState → AcceptorOp → Prop} {s : AcceptorState}
    (h : Reachable (acceptorSystem cfg env) (MessageMeets cfg env cond) s) :
    ValuesHeld s.stored s.log ∧ PromisesBacked s.log := by
  refine store_invariant puts (fun stored log => ValuesHeld stored log ∧ PromisesBacked log)
    held_backed_start ?_ h
  intro s op t coh wf ⟨held, backed⟩ _ outcome
  exact ⟨held.step wf outcome, backed.step coh wf held outcome⟩

/-! ### The outbox -/

/-- A batch as the leader may find it: not empty, and all in the debug log of its sender. -/
structure PromiseBatchMsg.Backed (log : List LogLine) (acceptorId : Int)
    (batch : PromiseBatchMsg) : Prop where
  owner : batch.acceptorId = acceptorId
  count_eq : batch.count = batch.data.length
  nonempty : batch.data ≠ []
  logged : ∀ p ∈ batch.data, LogLine.promised p ∈ log

/-- A learn repeats an accept of the debug log: its instance and value always, its
ballot and its proposer where that is asked for. -/
def LearnMsg.Backed (ballots owners : Prop) (log : List LogLine) (acceptorId : Int)
    (lmsg : LearnMsg) : Prop :=
  ∃ m, LogLine.acceptApplied m ∈ log ∧ lmsg.acceptorId = acceptorId ∧ lmsg.iid = m.iid ∧
    lmsg.valueSize = m.valueSize ∧ lmsg.value = m.value ∧
    (ballots → lmsg.ballot = m.ballot) ∧ (owners → lmsg.proposerId = m.proposerId)

/-- The headers of a packet and of an empty batch. -/
def emptyBatchSize : Int := sizeofPaxosMsg + sizeofPromiseBatchMsg

structure SendsBacked (log : List LogLine) (o : Outbox) : Prop where
  waiting : ∀ p ∈ o.promiseBatch.data, LogLine.promised p ∈ log
  count_eq : o.promiseBatch.count = o.promiseBatch.data.length
  room : o.promiseBatch.data = [] → o.sendBufferSize ≤ emptyBatchSize
  owner : o.promiseBatch.acceptorId = o.acceptorId ∨
    (o.sendBufferSize = 0 ∧ o.promiseBatch.data = [])
  promises : ∀ msg ∈ o.sent, ∀ batch, msg.data = .promise batch →
    batch.Backed log o.acceptorId

def AnswersBacked (ballots owners : Prop) (log : List LogLine) (o : Outbox) : Prop :=
  ∀ msg ∈ o.sent, ∀ lmsg, msg.data = .learn lmsg →
    lmsg.Backed ballots owners log o.acceptorId

section Outbox

variable {ballots owners : Prop} {log log' : List LogLine} {o o' : Outbox}

theorem PromiseBatchMsg.Backed.mono {acceptorId : Int} {batch : PromiseBatchMsg}
    (h : batch.Backed log acceptorId) (sub : log ⊆ log') : batch.Backed log' acceptorId :=
  ⟨h.owner, h.count_eq, h.nonempty, fun p hp => sub (h.logged p hp)⟩

theorem LearnMsg.Backed.mono {acceptorId : Int} {lmsg : LearnMsg}
    (h : lmsg.Backed ballots owners log acceptorId) (sub : log ⊆ log') :
    lmsg.Backed ballots owners log' acceptorId := by
  obtain ⟨m, hm, rest⟩ := h
  exact ⟨m, sub hm, rest⟩

theorem SendsBacked.mono (h : SendsBacked log o) (sub : log ⊆ log') : SendsBacked log' o := by
  refine ⟨?_, h.count_eq, h.room, h.owner, ?_⟩
  · intro p hp
    exact sub (h.waiting p hp)
  · intro msg hmsg batch hb
    exact (h.promises msg hmsg batch hb).mono sub

theorem SendsBacked.reset (h : SendsBacked log o) : SendsBacked log o.reset := by
  refine ⟨?_, rfl, fun _ => Int.le_refl _, .inl rfl, h.promises⟩
  intro p hp
  cases hp

theorem SendsBacked.flush (h : SendsBacked log o) (nonempty : o.promiseBatch.data ≠ []) :
    SendsBacked log o.flush := by
  have howner : o.promiseBatch.acceptorId = o.acceptorId :=
    h.owner.resolve_right fun hempty => nonempty hempty.2
  refine ⟨h.waiting, h.count_eq, fun hempty => absurd hempty nonempty, .inl howner, ?_⟩
  intro msg hmsg batch hb
  cases List.mem_cons.mp hmsg with
  | inl heq =>
      subst heq
      cases hb
      exact ⟨howner, h.count_eq, nonempty, h.waiting⟩
  | inr hmem => exact h.promises msg hmem batch hb

/-- A batch that has no room left is not empty, since every promise fits into a packet. -/
theorem SendsBacked.makeRoom (h : SendsBacked log o) {promiseSize : Int}
    (fits : promiseSize ≤ sizeofPromiseMsg + paxosMaxValueSize) :
    SendsBacked log (o.makeRoom promiseSize) ∧
      (o.makeRoom promiseSize).promiseBatch.acceptorId = (o.makeRoom promiseSize).acceptorId := by
  have hroom : SendsBacked log
      (if promiseSize + o.sendBufferSize > maxUdpMsgSize then o.flush else o) := by
    split
    · next hfull =>
        apply h.flush
        intro hempty
        have := h.room hempty
        simp only [emptyBatchSize, sizeofPaxosMsg, sizeofPromiseBatchMsg, sizeofPromiseMsg,
          paxosMaxValueSize, maxUdpMsgSize] at *
        omega
    · exact h
  simp only [Outbox.makeRoom]
  generalize (if promiseSize + o.sendBufferSize > maxUdpMsgSize then o.flush else o) = o' at hroom ⊢
  by_cases hsize : o'.sendBufferSize = 0
  · rw [if_pos hsize]
    exact ⟨hroom.reset, rfl⟩
  · rw [if_neg hsize]
    exact ⟨hroom, hroom.owner.resolve_right fun hempty => hsize hempty.1⟩

theorem SendsBacked.addPromise (h : SendsBacked log o) {p : PromiseMsg}
    (fits : p.valueSize ≤ paxosMaxValueSize) :
    SendsBacked (.promised p :: log) (o.addPromise p) := by
  have hfits : sizeofPromiseMsg + p.valueSize ≤ sizeofPromiseMsg + paxosMaxValueSize :=
    Int.add_le_add_left fits _
  obtain ⟨hroom, howner⟩ := h.makeRoom hfits
  have hroom := hroom.mono (List.subset_cons_self (.promised p) log)
  refine ⟨?_, ?_, ?_, .inl howner, hroom.promises⟩
  · intro q hq
    cases List.mem_append.mp hq with
    | inl hold => exact hroom.waiting q hold
    | inr hnew =>
        obtain rfl := List.mem_singleton.mp hnew
        exact List.mem_cons_self
  · simp [Outbox.addPromise, hroom.count_eq]
  · intro hempty
    simp [Outbox.addPromise] at hempty

theorem SendsBacked.sendLearn (h : SendsBacked log o) {packet : PaxosMsg} {lmsg : LearnMsg}
    (data : packet.data = .learn lmsg) : SendsBacked log (o.sendLearn packet) := by
  refine ⟨?_, rfl, fun _ => ?_, .inl rfl, ?_⟩
  · intro p hp
    cases hp
  · simp [Outbox.sendLearn, emptyBatchSize, sizeofPaxosMsg, sizeofPromiseBatchMsg]
  · intro msg hmsg batch hb
    cases List.mem_cons.mp hmsg with
    | inl heq =>
        subst heq
        rw [data] at hb
        cases hb
    | inr hmem => exact h.promises msg hmem batch hb

theorem AnswersBacked.mono (h : AnswersBacked ballots owners log o) (sub : log ⊆ log') :
    AnswersBacked ballots owners log' o :=
  fun msg hmsg lmsg hl => (h msg hmsg lmsg hl).mono sub

/-- No learn goes out. -/
theorem AnswersBacked.congr (h : AnswersBacked ballots owners log o)
    (id : o'.acceptorId = o.acceptorId)
    (learns : ∀ msg ∈ o'.sent, ∀ lmsg, msg.data = .learn lmsg → msg ∈ o.sent) :
    AnswersBacked ballots owners log o' := by
  intro msg hmsg lmsg hl
  rw [id]
  exact h msg (learns msg hmsg lmsg hl) lmsg hl

theorem flush_learns (o : Outbox) {msg : PaxosMsg} {lmsg : LearnMsg} (hmsg : msg ∈ o.flush.sent)
    (data : msg.data = .learn lmsg) : msg ∈ o.sent := by
  refine (List.mem_cons.mp hmsg).resolve_left ?_
  intro heq
  subst heq
  cases data

theorem AnswersBacked.addPromise (h : AnswersBacked ballots owners log o) (p : PromiseMsg) :
    AnswersBacked ballots owners log (o.addPromise p) := by
  simp only [Outbox.addPromise, Outbox.makeRoom]
  apply h.congr
  · repeat' split
    all_goals rfl
  · intro msg hmsg lmsg hl
    repeat' split at hmsg
    all_goals first
      | exact flush_learns o hmsg hl
      | exact hmsg

theorem AnswersBacked.sendLearn (h : AnswersBacked ballots owners log o) {packet : PaxosMsg}
    {lmsg : LearnMsg} (data : packet.data = .learn lmsg)
    (backed : lmsg.Backed ballots owners log o.acceptorId) :
    AnswersBacked ballots owners log (o.sendLearn packet) := by
  intro msg hmsg l hl
  cases List.mem_cons.mp hmsg with
  | inl heq =>
      subst heq
      rw [data] at hl
      cases hl
      exact backed
  | inr hmem => exact h msg hmem l hl

end Outbox

/-! ### Runs -/

/-- An lsync is answered from a record with a value, whose ballot and owner are those
of its accept where that is asked for. -/
def LsyncAccurate (ballots owners : Prop) (cfg : Config) (env : DiskEnv) (s : AcceptorState) :
    AcceptorOp → Prop
  | .lsync iid => ∀ r, readRecord cfg env s iid = some r → r.value.isSome →
      r.valueBallot ≠ -1 ∧ (ballots → r.ballot = r.valueBallot) ∧
        (owners → s.evicted cfg iid = true → ∀ m, lastAccept iid s.log = some m →
          r.proposerId = m.proposerId)
  | .prepare _ | .accept _ | .anyval _ _ => True

instance (ballots owners : Prop) [Decidable ballots] [Decidable owners] (cfg : Config)
    (env : DiskEnv) (s : AcceptorState) :
    (op : AcceptorOp) → Decidable (LsyncAccurate ballots owners cfg env s op)
  | .lsync iid => inferInstanceAs (Decidable (∀ r, readRecord cfg env s iid = some r → _))
  | .prepare _ | .accept _ | .anyval _ _ => isTrue trivial

/-- What an acceptor keeps true of its promises. -/
structure Accountable (cfg : Config) (s : AcceptorState) : Prop where
  coherent : s.Coherent cfg
  held : ValuesHeld s.stored s.log
  sends : SendsBacked s.log s.out

/-- What it keeps true of its learns as well, as long as its lsyncs are accurate. -/
structure Answerable (ballots owners : Prop) (cfg : Config) (s : AcceptorState) : Prop extends
    Accountable cfg s where
  learns : LearnsKept s
  answers : AnswersBacked ballots owners s.log s.out

section Runs

variable {ballots owners : Prop} {cfg : Config} {env : DiskEnv} {s t : AcceptorState}

theorem Answerable.learn_backed (inv : Answerable ballots owners cfg s) {iid : Int}
    (nonneg : 0 ≤ iid) {r : AcceptorRecord} (read : readRecord cfg env s iid = some r)
    (value : r.value.isSome)
    (accurate : LsyncAccurate ballots owners cfg env s (.lsync iid)) :
    (learnOf s.acceptorId r).Backed ballots owners s.log s.acceptorId := by
  obtain ⟨valued, hballot, howner⟩ := accurate r read value
  have hread := inv.coherent.read_some nonneg read
  obtain ⟨m, hlast, hvb, hsize, hvalue⟩ := inv.held.held iid _ hread.stored valued
  have hvb : r.valueBallot = m.ballot := hvb
  obtain ⟨hmem, hiid⟩ := lastAccept_mem hlast
  refine ⟨m, hmem, rfl, hread.iid_eq.trans hiid.symm, hsize, hvalue, ?_, ?_⟩
  · intro asked
    exact (hballot asked).trans hvb
  · intro asked
    cases hev : s.evicted cfg iid with
    | false => exact slot_owner inv.learns nonneg read hev value hlast
    | true => exact howner asked hev m hlast

theorem SendsBacked.step (inv : Accountable cfg s) {op : AcceptorOp}
    (outcome : OpOutcome cfg env s op t) : SendsBacked t.log t.out := by
  cases outcome with
  | @promised msg _ granted stored log out =>
      rw [log, out]
      apply inv.sends.addPromise
      cases hf : s.stored msg.iid with
      | none => simp [PrepareMsg.image, FlatRecord.promise, paxosMaxValueSize]
      | some f =>
          have hsize : f.valueSize ≤ paxosMaxValueSize := inv.held.valueSize_le inv.coherent hf
          exact hsize
  | @accepted amsg _ applied stored log sent out =>
      rw [log, out]
      have hsends := inv.sends.mono (List.subset_cons_self (.acceptApplied amsg) s.log)
      exact SendsBacked.sendLearn hsends rfl
  | @opened iid ballot _ applied stored log sent out =>
      rw [log, out]
      exact inv.sends.mono (List.subset_cons_self _ _)
  | answered read value stored log sent out =>
      rw [log, out]
      exact inv.sends.sendLearn rfl
  | ignored stored log sent out =>
      rw [log, out]
      exact inv.sends

theorem AnswersBacked.step (inv : Answerable ballots owners cfg s) {op : AcceptorOp}
    (wf : op.WellFormed) (accurate : LsyncAccurate ballots owners cfg env s op)
    (outcome : OpOutcome cfg env s op t) : AnswersBacked ballots owners t.log t.out := by
  cases outcome with
  | @promised msg _ granted stored log out =>
      rw [log, out]
      exact (inv.answers.addPromise _).mono (List.subset_cons_self _ _)
  | @accepted amsg _ applied stored log sent out =>
      rw [log, out]
      apply (inv.answers.mono (List.subset_cons_self (.acceptApplied amsg) s.log)).sendLearn rfl
      exact ⟨amsg, List.mem_cons_self, rfl, rfl, rfl, rfl, fun _ => rfl, fun _ => rfl⟩
  | @opened iid ballot _ applied stored log sent out =>
      rw [log, out]
      exact inv.answers.mono (List.subset_cons_self _ _)
  | answered read value stored log sent out =>
      rw [log, out]
      exact inv.answers.sendLearn rfl (inv.learn_backed wf read value accurate)
  | ignored stored log sent out =>
      rw [log, out]
      exact inv.answers

theorem Accountable.step (puts : env.PutsSucceed) {op : AcceptorOp} (wf : op.WellFormed)
    (inv : Accountable cfg s) (run : handleOp cfg env s op = some t) : Accountable cfg t := by
  obtain ⟨coh, -, outcome⟩ := handleOp_outcome inv.coherent puts wf run
  exact ⟨coh, inv.held.step wf outcome, SendsBacked.step inv outcome⟩

theorem Answerable.step (puts : env.PutsSucceed) {op : AcceptorOp} (wf : op.WellFormed)
    (inv : Answerable ballots owners cfg s)
    (accurate : LsyncAccurate ballots owners cfg env s op)
    (run : handleOp cfg env s op = some t) : Answerable ballots owners cfg t := by
  obtain ⟨-, -, outcome⟩ := handleOp_outcome inv.coherent puts wf run
  exact ⟨inv.toAccountable.step puts wf run, inv.learns.step inv.coherent wf run,
    AnswersBacked.step inv wf accurate outcome⟩

/-- Starting and flushing a batch change the outbox only. -/
theorem Accountable.congr (inv : Accountable cfg s)
    (arr : t.acceptorArray = s.acceptorArray) (db : t.accDb = s.accDb) (log : t.log = s.log)
    (sends : SendsBacked s.log t.out) : Accountable cfg t := by
  refine ⟨inv.coherent.congr arr db, ?_, ?_⟩
  · rw [stored_of_accDb db, log]
    exact inv.held
  · rw [log]
    exact sends

theorem Accountable.reset (inv : Accountable cfg s) : Accountable cfg (resetPromiseBatch s) :=
  inv.congr (by simp) (by simp) (by simp) inv.sends.reset

theorem Accountable.flush (inv : Accountable cfg s) (count : 0 < s.promiseBatch.count) :
    Accountable cfg (flushSendBuffer (diskForceSyncrony cfg env s)) := by
  refine inv.congr (by simp) (by simp) (by simp) ?_
  rw [flushSendBuffer_out, diskForceSyncrony_out]
  apply inv.sends.flush
  intro hempty
  have hcount := inv.sends.count_eq
  rw [hempty] at hcount
  have hcount : s.promiseBatch.count = 0 := hcount
  omega

theorem Answerable.congr (inv : Answerable ballots owners cfg s) (accountable : Accountable cfg t)
    (arr : t.acceptorArray = s.acceptorArray) (id : t.acceptorId = s.acceptorId)
    (log : t.log = s.log) (sent : s.sent ⊆ t.sent)
    (answers : AnswersBacked ballots owners s.log t.out) : Answerable ballots owners cfg t := by
  refine ⟨accountable, inv.learns.congr arr id log sent, ?_⟩
  rw [log]
  exact answers

theorem acceptorStart_accountable (id : Int) : Accountable cfg (acceptorStart id) := by
  refine ⟨acceptorStart_coherent cfg id, ⟨?_, ?_⟩, ?_⟩
  · intro iid f hf
    cases hf
  · intro m hm
    cases hm
  · refine ⟨?_, rfl, fun _ => ?_, .inr ⟨rfl, rfl⟩, ?_⟩
    · intro p hp
      cases hp
    · simp [AcceptorState.out, acceptorStart, emptyBatchSize, sizeofPaxosMsg,
        sizeofPromiseBatchMsg]
    · intro msg hmsg
      cases hmsg

variable {cond : AcceptorState → AcceptorOp → Prop}

theorem acceptor_accountable (puts : env.PutsSucceed)
    (h : Reachable (acceptorSystem cfg env) (MessageMeets cfg env cond) s) :
    Accountable cfg s := by
  refine acceptor_invariant (Accountable cfg) ?_ ?_ ?_ ?_ h
  · exact acceptorStart_accountable
  · intro s inv
    exact inv.reset
  · intro s op t wf inv _ run
    exact inv.step puts wf run
  · intro s inv count
    exact inv.flush count

theorem acceptor_answerable (puts : env.PutsSucceed)
    (accurate : ∀ s op, cond s op → LsyncAccurate ballots owners cfg env s op)
    (h : Reachable (acceptorSystem cfg env) (MessageMeets cfg env cond) s) :
    Answerable ballots owners cfg s := by
  refine acceptor_invariant (Answerable ballots owners cfg) ?_ ?_ ?_ ?_ h
  · intro id
    refine ⟨acceptorStart_accountable id, acceptorStart_learnsKept id, ?_⟩
    intro msg hmsg
    cases hmsg
  · intro s inv
    exact inv.congr inv.toAccountable.reset (by simp) (by simp) (by simp) (by simp) inv.answers
  · intro s op t wf inv meets run
    exact inv.step puts wf (accurate s op meets) run
  · intro s inv count
    refine inv.congr (inv.toAccountable.flush count) (by simp) (by simp) (by simp) (by simp) ?_
    rw [flushSendBuffer_out, diskForceSyncrony_out]
    exact inv.answers.congr rfl fun msg hmsg lmsg hl => flush_learns _ hmsg hl

end Runs
end LibFastPaxos
