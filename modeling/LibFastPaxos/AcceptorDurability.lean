import LibFastPaxos.AcceptorRuns
import LibFastPaxos.Lib.Durability

/-!
What an acceptor has on disk when it answers. The trace is a journal of puts and syncs,
and the handlers ignore the results of both; the answers rest on stored records as long
as the puts of what they answer succeed and a sync does before the datagram goes out.
-/

namespace LibFastPaxos

open Transition Durability History

/-- The trace read as a journal of the puts and syncs that returned 0. -/
def diskJournal : Journal Effect FlatRecord where
  wrote := fun e => match e with
    | .put flat ret => if ret = 0 then some flat else none
    | .get _ | .sync _ | .log _ | .send _ => none
  synced := fun e => match e with
    | .sync ret => decide (ret = 0)
    | .get _ | .put _ _ | .log _ | .send _ => false
  apart := by
    intro e h
    cases e with
    | sync _ => rfl
    | get _ | put _ _ | log _ | send _ => cases h

/-- The learn reports the ballot and the value of this record. -/
structure LearnMsg.Reports (lmsg : LearnMsg) (f : FlatRecord) : Prop where
  iid_eq : f.iid = lmsg.iid
  ballot_eq : f.ballot = lmsg.ballot
  valueSize_eq : f.valueSize = lmsg.valueSize
  value_eq : f.value = lmsg.value

/-- What a datagram reports was put and synced before it was sent. -/
def AnswerStored : Effect → List Effect → Prop
  | .send packet, older => match packet.data with
      | .promise batch => ∀ p ∈ batch.data.take batch.count.toNat,
          ∃ f : FlatRecord, f.promise = p ∧ diskJournal.Durable older f
      | .learn lmsg => ∃ f, lmsg.Reports f ∧ diskJournal.Durable older f
      | .prepare _ | .accept _ | .lsync _ | .anyval _ => True
  | .get _, _ | .put _ _, _ | .sync _, _ | .log _, _ => True

/-- Nothing was answered before it was stored. -/
def AcceptorState.AnswersStored (s : AcceptorState) : Prop := Along AnswerStored s.trace

/-! ### What the answers need of the disk -/

/-- A sync has succeeded since the last put. -/
def AcceptorState.synced (s : AcceptorState) : Bool :=
  diskJournal.settled (fun _ => true) s.trace

/-- A sync has succeeded since the last put of the instance. -/
def AcceptorState.syncedFor (s : AcceptorState) (iid : Int) : Bool :=
  diskJournal.settled (fun f => decide (f.iid = iid)) s.trace

/-- The position in the trace of the put of a record of the instance. -/
def AcceptorState.putAt (cfg : Config) (s : AcceptorState) (iid : Int) : Nat :=
  (s.consult cfg iid).trace.length

/-- The size of the promise that answers a prepare. -/
def promiseSize : Option AcceptorRecord → Int
  | none => sizeofPromiseMsg
  | some r => sizeofPromiseMsg + r.valueSize

/-- The puts and syncs of one operation, where an answer rests on them. -/
def StoresAnswer (cfg : Config) (env : DiskEnv) (s : AcceptorState) : AcceptorOp → Prop
  | .prepare msg =>
      let n := s.putAt cfg msg.iid
      let found := readRecord cfg env s msg.iid
      msg.Granted found → env.putRet n = 0 ∧
        (promiseSize found + s.sendBufferSize > maxUdpMsgSize →
          s.synced = true ∨ env.syncRet (n + 1) = 0 ∨ env.syncRet (n + 2) = 0)
  | .accept amsg =>
      let n := s.putAt cfg amsg.iid
      amsg.Applied cfg (readRecord cfg env s amsg.iid) → env.putRet n = 0 ∧
        (env.syncRet (n + 1) = 0 ∨ env.syncRet (n + 2) = 0)
  | .lsync iid => s.evicted cfg iid = true → s.syncedFor iid = true
  | .anyval _ _ => True

/-- The sync before the rest of a batch of promises is flushed. -/
def StoresRest (env : DiskEnv) (s : AcceptorState) : PaxosData → Prop
  | .prepare _ => 0 < s.promiseBatch.count →
      s.synced = true ∨ env.syncRet s.trace.length = 0
  | .accept _ | .lsync _ | .promise _ | .learn _ | .anyval _ => True

structure MessageStores (cfg : Config) (env : DiskEnv) (s : AcceptorState) (msg : PaxosMsg) :
    Prop where
  answers : MessageMeets cfg env (StoresAnswer cfg env) s msg
  rest : ∀ u, msg.data.ops.foldlM (handleOp cfg env) (openMessage s msg.data) = some u →
    StoresRest env u msg.data

instance (cfg : Config) (env : DiskEnv) (s : AcceptorState) :
    (op : AcceptorOp) → Decidable (StoresAnswer cfg env s op)
  | .prepare _ => inferInstanceAs (Decidable (_ → _ ∧ (_ → _)))
  | .accept _ => inferInstanceAs (Decidable (_ → _))
  | .lsync _ => inferInstanceAs (Decidable (_ → _))
  | .anyval _ _ => isTrue trivial

instance (env : DiskEnv) (s : AcceptorState) :
    (data : PaxosData) → Decidable (StoresRest env s data)
  | .prepare _ => inferInstanceAs (Decidable (_ → _))
  | .accept _ | .lsync _ | .promise _ | .learn _ | .anyval _ => isTrue trivial

instance (cfg : Config) (env : DiskEnv) (s : AcceptorState) (msg : PaxosMsg) :
    Decidable (MessageStores cfg env s msg) :=
  decidable_of_iff (MessageMeets cfg env (StoresAnswer cfg env) s msg ∧
    ∀ u, msg.data.ops.foldlM (handleOp cfg env) (openMessage s msg.data) = some u →
      StoresRest env u msg.data) ⟨fun h => ⟨h.1, h.2⟩, fun h => ⟨h.answers, h.rest⟩⟩

/-! ### The trace of each step -/

section Trace

variable {cfg : Config} {env : DiskEnv} {s t : AcceptorState} {iid : Int} {r : AcceptorRecord}

/-- Nothing is stored on the way, and nothing sent. -/
structure QuietStep (s t : AcceptorState) : Prop where
  array : t.acceptorArray = s.acceptorArray
  db : t.accDb = s.accDb
  trace : ∃ new, t.trace = new ++ s.trace ∧ ∀ e ∈ new, diskJournal.wrote e = none ∧
    ∀ packet, e ≠ .send packet

theorem QuietStep.refl (s : AcceptorState) : QuietStep s s :=
  ⟨rfl, rfl, [], rfl, fun _ h => by cases h⟩

theorem QuietStep.emit (s : AcceptorState) {e : Effect} (silent : diskJournal.wrote e = none)
    (noSend : ∀ packet, e ≠ .send packet) : QuietStep s (s.emit e) := by
  refine ⟨rfl, rfl, [e], rfl, ?_⟩
  intro e' he'
  rw [List.mem_singleton.mp he']
  exact ⟨silent, noSend⟩

theorem consult_quiet (cfg : Config) (s : AcceptorState) (iid : Int) :
    QuietStep s (s.consult cfg iid) := by
  simp only [AcceptorState.consult]
  split
  · exact .emit s rfl (fun _ h => by cases h)
  · exact .refl s

theorem diskForceSyncrony_trace (force : cfg.paxosAcceptorForceDiskFlush = true) :
    (diskForceSyncrony cfg env s).trace = .sync (env.syncRet s.trace.length) :: s.trace := by
  rw [diskForceSyncrony, if_pos force]
  rfl

theorem diskForceSyncrony_quiet (cfg : Config) (env : DiskEnv) (s : AcceptorState) :
    QuietStep s (diskForceSyncrony cfg env s) := by
  simp only [diskForceSyncrony]
  split
  · exact .emit s rfl (fun _ h => by cases h)
  · exact .refl s

theorem writeBack_trace_of_put (force : cfg.paxosAcceptorForceDiskFlush = true)
    (put : env.putRet (s.putAt cfg iid) = 0) :
    (writeBack cfg env s iid r).trace =
      .sync (env.syncRet (s.putAt cfg iid + 1)) :: .put (flatten r) 0 ::
        (s.consult cfg iid).trace := by
  have htrace : ((s.consult cfg iid).store r (recordPtr cfg s iid)).trace =
      (s.consult cfg iid).trace := by
    cases recordPtr cfg s iid <;> rfl
  simp only [writeBack, diskUpdateRecord, htrace]
  rw [AcceptorState.putAt] at put ⊢
  rw [if_neg (by simp [put]), diskForceSyncrony_trace force]
  simp [AcceptorState.writeDb, AcceptorState.emit, htrace, put]

/-- The disk holds what the last put of each instance stored. -/
structure DiskLogged (s : AcceptorState) : Prop where
  stored : ∀ iid, s.stored iid =
    diskJournal.last (fun f => decide (f.iid = iid)) s.trace
  tidy : ∀ f, diskJournal.Written s.trace f → memcpy f.value f.valueSize = f.value

theorem last_append_quiet {p : FlatRecord → Bool} {new older : List Effect}
    (quiet : ∀ e ∈ new, diskJournal.wrote e = none) :
    diskJournal.last p (new ++ older) = diskJournal.last p older := by
  have hnone : new.findSome? (fun e => (diskJournal.wrote e).filter p) = none := by
    refine List.findSome?_eq_none_iff.mpr fun e he => ?_
    rw [quiet e he]
    rfl
  rw [Journal.last, List.findSome?_append, hnone]
  rfl

theorem written_append_quiet {new older : List Effect} {f : FlatRecord}
    (quiet : ∀ e ∈ new, diskJournal.wrote e = none)
    (written : diskJournal.Written (new ++ older) f) : diskJournal.Written older f := by
  obtain ⟨e, he, hf⟩ := written
  cases List.mem_append.mp he with
  | inl hnew =>
      rw [quiet e hnew] at hf
      cases hf
  | inr hold => exact ⟨e, hold, hf⟩

theorem DiskLogged.quiet (h : DiskLogged s) (db : t.accDb = s.accDb)
    (new : List Effect) (trace : t.trace = new ++ s.trace)
    (quiet : ∀ e ∈ new, diskJournal.wrote e = none) : DiskLogged t := by
  refine ⟨fun iid => ?_, fun f written => ?_⟩
  · rw [trace, last_append_quiet quiet, ← h.stored]
    exact congrFun (stored_of_accDb db) iid
  · rw [trace] at written
    exact h.tidy f (written_append_quiet quiet written)

theorem DiskLogged.step (h : DiskLogged s) (step : QuietStep s t) : DiskLogged t := by
  obtain ⟨new, htrace, hquiet⟩ := step.trace
  exact h.quiet step.db new htrace fun e he => (hquiet e he).1

theorem DiskLogged.put (h : DiskLogged s) (r : AcceptorRecord) :
    DiskLogged ((s.emit (.put (flatten r) 0)).writeDb (r.iid + 1) (flatten r)) := by
  refine ⟨fun iid => ?_, fun f written => ?_⟩
  · have hstored : AcceptorState.stored
        ((s.emit (.put (flatten r) 0)).writeDb (r.iid + 1) (flatten r)) iid =
          if iid = r.iid then some (flatten r) else s.stored iid := by
      simp only [AcceptorState.stored, AcceptorState.writeDb, Function.update_apply,
        AcceptorState.emit]
      by_cases hiid : iid = r.iid
      · simp [hiid]
      · rw [if_neg (by omega), if_neg hiid]
    have hlast : diskJournal.last (fun f => decide (f.iid = iid))
        (.put (flatten r) 0 :: s.trace) =
          if iid = r.iid then some (flatten r)
          else diskJournal.last (fun f => decide (f.iid = iid)) s.trace := by
      have hiid : (flatten r).iid = r.iid := rfl
      simp only [Journal.last, List.findSome?_cons, diskJournal, if_true, Option.filter_some, hiid]
      by_cases heq : iid = r.iid
      · simp [heq]
      · rw [if_neg heq, if_neg (by simpa using fun h => heq h.symm)]
    rw [hstored, h.stored]
    exact hlast.symm
  · obtain ⟨e, he, hf⟩ := written
    cases List.mem_cons.mp he with
    | inl heq =>
        subst heq
        obtain rfl := Option.some.inj hf
        exact memcpy_memcpy _ _
    | inr hold => exact h.tidy f ⟨e, hold, hf⟩

theorem DiskLogged.diskUpdateRecord (h : DiskLogged s) (cfg : Config) (env : DiskEnv)
    (r : AcceptorRecord) : DiskLogged (diskUpdateRecord cfg env s r) := by
  cases diskUpdateRecord_cases cfg env s r with
  | inl failed =>
      obtain ⟨ret, hret, heq⟩ := failed
      rw [heq]
      refine h.quiet rfl [.put (flatten r) ret] rfl ?_
      intro e he
      rw [List.mem_singleton.mp he]
      exact if_neg hret
  | inr stored =>
      rw [stored]
      exact (h.put r).step (diskForceSyncrony_quiet cfg env _)

theorem DiskLogged.writeBack (h : DiskLogged s) (cfg : Config) (env : DiskEnv) (iid : Int)
    (r : AcceptorRecord) : DiskLogged (writeBack cfg env s iid r) := by
  have hconsult := h.step (consult_quiet cfg s iid)
  refine DiskLogged.diskUpdateRecord ?_ cfg env r
  cases recordPtr cfg s iid with
  | slot k => exact hconsult.quiet rfl [] rfl nofun
  | heap => exact hconsult

theorem QuietStep.trans {u : AcceptorState} (h : QuietStep s t) (h' : QuietStep t u) :
    QuietStep s u := by
  obtain ⟨new, htrace, hnew⟩ := h.trace
  obtain ⟨new', htrace', hnew'⟩ := h'.trace
  refine ⟨h'.array.trans h.array, h'.db.trans h.db, new' ++ new, ?_, ?_⟩
  · rw [htrace', htrace, List.append_assoc]
  · intro e he
    cases List.mem_append.mp he with
    | inl hlate => exact hnew' e hlate
    | inr hearly => exact hnew e hearly

/-- The trace of a put and of the syncs after it. -/
theorem writeBack_extends (cfg : Config) (env : DiskEnv) (s : AcceptorState) (iid : Int)
    (r : AcceptorRecord) :
    ∃ new, (writeBack cfg env s iid r).trace = new ++ s.trace ∧
      ∀ e ∈ new, ∀ packet, e ≠ .send packet := by
  obtain ⟨seen, hseen, hquiet⟩ := (consult_quiet cfg s iid).trace
  have hstore : ((s.consult cfg iid).store r (recordPtr cfg s iid)).trace = seen ++ s.trace := by
    rw [← hseen]
    cases recordPtr cfg s iid <;> rfl
  have hnoSend : ∀ e ∈ seen, ∀ packet, e ≠ .send packet := fun e he => (hquiet e he).2
  simp only [writeBack]
  cases diskUpdateRecord_cases cfg env ((s.consult cfg iid).store r (recordPtr cfg s iid)) r with
  | inl failed =>
      obtain ⟨ret, -, heq⟩ := failed
      rw [heq]
      refine ⟨.put (flatten r) ret :: seen, congrArg (_ :: ·) hstore, ?_⟩
      intro e he
      cases List.mem_cons.mp he with
      | inl heq => rw [heq]; exact fun _ h => by cases h
      | inr hold => exact hnoSend e hold
  | inr stored =>
      rw [stored]
      obtain ⟨new, hnew, hquiet'⟩ := (diskForceSyncrony_quiet cfg env
        ((((s.consult cfg iid).store r (recordPtr cfg s iid)).emit
          (.put (flatten r) 0)).writeDb (r.iid + 1) (flatten r))).trace
      refine ⟨new ++ .put (flatten r) 0 :: seen, ?_, ?_⟩
      · rw [hnew, List.append_assoc, List.cons_append, ← hstore]
        rfl
      · intro e he
        cases List.mem_append.mp he with
        | inl hlate => exact (hquiet' e hlate).2
        | inr hearly =>
            cases List.mem_cons.mp hearly with
            | inl heq => rw [heq]; exact fun _ h => by cases h
            | inr hold => exact hnoSend e hold

end Trace

/-! ### Stored before it is answered -/

/-- What holds in every state of a run that stores its answers. -/
structure StoredSoFar (s : AcceptorState) : Prop where
  logged : DiskLogged s
  answers : s.AnswersStored

/-- Between two messages the value of a slot is durable. -/
structure StoredBetween (s : AcceptorState) : Prop where
  soFar : StoredSoFar s
  slots : ∀ k, (s.acceptorArray k).value.isSome →
    diskJournal.Durable s.trace (flatten (s.acceptorArray k))

/-- What waits in the buffer has been put. -/
structure StoredWaiting (s : AcceptorState) : Prop where
  soFar : StoredSoFar s
  slots : ∀ k, (s.acceptorArray k).value.isSome →
    diskJournal.Written s.trace (flatten (s.acceptorArray k))
  count_eq : s.promiseBatch.count = s.promiseBatch.data.length
  waiting : ∀ p ∈ s.promiseBatch.data,
    ∃ f : FlatRecord, f.promise = p ∧ diskJournal.Written s.trace f

/-- While a prepare batch is handled, a slot is durable as long as nothing waits. -/
structure StoredInBatch (s : AcceptorState) : Prop extends StoredWaiting s where
  settled : s.promiseBatch.count ≤ 0 → ∀ k, (s.acceptorArray k).value.isSome →
    diskJournal.Durable s.trace (flatten (s.acceptorArray k))

section Stored

variable {cfg : Config} {env : DiskEnv} {s t : AcceptorState} {iid : Int} {r : AcceptorRecord}

theorem along_append_noSend {new older : List Effect}
    (noSend : ∀ e ∈ new, ∀ packet, e ≠ .send packet) (along : Along AnswerStored older) :
    Along AnswerStored (new ++ older) := by
  induction new with
  | nil => exact along
  | cons e new ih =>
      refine ⟨?_, ih fun e' he' => noSend e' (List.mem_cons_of_mem e he')⟩
      cases e with
      | send packet => exact absurd rfl (noSend (.send packet) List.mem_cons_self packet)
      | get _ | put _ _ | sync _ | log _ => trivial

theorem StoredSoFar.step (h : StoredSoFar s) (step : QuietStep s t) : StoredSoFar t := by
  refine ⟨h.logged.step step, ?_⟩
  obtain ⟨new, htrace, hquiet⟩ := step.trace
  simp only [AcceptorState.AnswersStored, htrace]
  exact along_append_noSend (fun e he => (hquiet e he).2) h.answers

theorem StoredSoFar.writeBack (h : StoredSoFar s) (cfg : Config) (env : DiskEnv) (iid : Int)
    (r : AcceptorRecord) : StoredSoFar (writeBack cfg env s iid r) := by
  refine ⟨h.logged.writeBack cfg env iid r, ?_⟩
  obtain ⟨new, htrace, hnoSend⟩ := writeBack_extends cfg env s iid r
  simp only [AcceptorState.AnswersStored, htrace]
  exact along_append_noSend hnoSend h.answers

/-- A datagram goes out that reports what is stored. -/
theorem StoredSoFar.send (h : StoredSoFar s) (packet : PaxosMsg)
    (stored : AnswerStored (.send packet) s.trace) (db : t.accDb = s.accDb)
    (trace : t.trace = .send packet :: s.trace) : StoredSoFar t := by
  refine ⟨h.logged.quiet db [.send packet] trace ?_, ?_⟩
  · intro e he
    rw [List.mem_singleton.mp he]
    rfl
  · simp only [AcceptorState.AnswersStored, trace]
    exact ⟨stored, h.answers⟩

theorem StoredBetween.step (h : StoredBetween s) (step : QuietStep s t) : StoredBetween t := by
  refine ⟨h.soFar.step step, ?_⟩
  obtain ⟨new, htrace, -⟩ := step.trace
  rw [step.array, htrace]
  exact fun k value => (h.slots k value).append new

/-- The slots after a record was written back, when it is durable. -/
theorem StoredBetween.slots_writeBack (h : StoredBetween s) (cfg : Config) (env : DiskEnv)
    (iid : Int) (r : AcceptorRecord) {trace : List Effect}
    (later : ∃ new, trace = new ++ (LibFastPaxos.writeBack cfg env s iid r).trace)
    (own : r.value.isSome → diskJournal.Durable trace (flatten r)) (k : Nat)
    (value : ((LibFastPaxos.writeBack cfg env s iid r).acceptorArray k).value.isSome) :
    diskJournal.Durable trace
      (flatten ((LibFastPaxos.writeBack cfg env s iid r).acceptorArray k)) := by
  obtain ⟨new, htrace, -⟩ := writeBack_extends cfg env s iid r
  obtain ⟨new', hlater⟩ := later
  cases writeBack_slots cfg env s iid r k with
  | inl hnew =>
      rw [hnew] at value ⊢
      exact own value
  | inr hold =>
      rw [hold] at value ⊢
      rw [hlater, htrace]
      exact ((h.slots k value).append new).append new'

theorem StoredBetween.opened (h : StoredBetween s) (cfg : Config) (env : DiskEnv)
    (iid ballot : Int) (base : AcceptorRecord) :
    StoredBetween ((LibFastPaxos.writeBack cfg env s iid (anyvalRecord base iid ballot)).emit
      (.log (.anyvalApplied iid ballot))) := by
  have hlog := QuietStep.emit (LibFastPaxos.writeBack cfg env s iid (anyvalRecord base iid ballot))
    (e := .log (.anyvalApplied iid ballot)) rfl nofun
  refine ⟨(h.soFar.writeBack cfg env iid _).step hlog, ?_⟩
  intro k value
  exact h.slots_writeBack cfg env iid _ ⟨[_], rfl⟩ (fun hnone => by cases hnone) k value

theorem learnOf_reports (acceptorId : Int) (r : AcceptorRecord) :
    (learnOf acceptorId r).Reports (flatten r) :=
  ⟨rfl, rfl, rfl, rfl⟩

theorem StoredBetween.accepted (h : StoredBetween s)
    (force : cfg.paxosAcceptorForceDiskFlush = true) {amsg : AcceptMsg}
    (put : env.putRet (s.putAt cfg amsg.iid) = 0)
    (sync : env.syncRet (s.putAt cfg amsg.iid + 1) = 0 ∨
      env.syncRet (s.putAt cfg amsg.iid + 2) = 0) (base : AcceptorRecord) :
    StoredBetween (sendLearnMessage
      ((diskForceSyncrony cfg env (LibFastPaxos.writeBack cfg env s amsg.iid
        (amsg.record base))).emit (.log (.acceptApplied amsg))) (amsg.record base)) := by
  let u := LibFastPaxos.writeBack cfg env s amsg.iid (amsg.record base)
  have hput : u.trace = .sync (env.syncRet (s.putAt cfg amsg.iid + 1)) ::
      .put (flatten (amsg.record base)) 0 :: (s.consult cfg amsg.iid).trace :=
    writeBack_trace_of_put force put
  have hlen : u.trace.length = s.putAt cfg amsg.iid + 2 := by
    rw [hput]
    rfl
  have hsync : (diskForceSyncrony cfg env u).trace =
      .sync (env.syncRet u.trace.length) :: u.trace := diskForceSyncrony_trace force
  rw [hlen] at hsync
  have hdurable : diskJournal.Durable (diskForceSyncrony cfg env u).trace
      (flatten (amsg.record base)) := by
    have hwritten : diskJournal.Written (.put (flatten (amsg.record base)) 0 ::
        (s.consult cfg amsg.iid).trace) (flatten (amsg.record base)) :=
      ⟨_, List.mem_cons_self, rfl⟩
    rw [hsync, hput]
    cases sync with
    | inl hfirst => exact .inr (.inl ⟨decide_eq_true hfirst, hwritten⟩)
    | inr hsecond => exact .inl ⟨decide_eq_true hsecond, hwritten.cons _⟩
  have hquiet := (diskForceSyncrony_quiet cfg env u).trans
    (.emit (diskForceSyncrony cfg env u) (e := .log (.acceptApplied amsg)) rfl nofun)
  have hsofar := (h.soFar.writeBack cfg env amsg.iid (amsg.record base)).step hquiet
  refine ⟨hsofar.send (learnPacket s.acceptorId (amsg.record base)) ?_ rfl ?_, ?_⟩
  · exact ⟨_, learnOf_reports _ _, hdurable.cons _⟩
  · have hid : (diskForceSyncrony cfg env u).acceptorId = s.acceptorId := by
      simp [u, writeBack_frame]
    rw [← hid]
    rfl
  · have harray : (diskForceSyncrony cfg env u).acceptorArray = u.acceptorArray := by simp
    intro k value
    have hval : ((diskForceSyncrony cfg env u).acceptorArray k).value.isSome := value
    rw [harray] at hval
    have hslot : diskJournal.Durable (.send (learnPacket s.acceptorId (amsg.record base)) ::
        .log (.acceptApplied amsg) :: (diskForceSyncrony cfg env u).trace)
          (flatten (u.acceptorArray k)) :=
      h.slots_writeBack cfg env amsg.iid (amsg.record base) ⟨[_, _, _], by rw [hsync]; rfl⟩
        (fun _ => (hdurable.cons _).cons _) k hval
    have hid : (diskForceSyncrony cfg env u).acceptorId = s.acceptorId := by
      simp [u, writeBack_frame]
    have htrace : (sendLearnMessage ((diskForceSyncrony cfg env u).emit
        (.log (.acceptApplied amsg))) (amsg.record base)).trace =
          .send (learnPacket s.acceptorId (amsg.record base)) ::
            .log (.acceptApplied amsg) :: (diskForceSyncrony cfg env u).trace := by
      rw [← hid]
      rfl
    rw [htrace]
    have harr : (sendLearnMessage ((diskForceSyncrony cfg env u).emit
        (.log (.acceptApplied amsg))) (amsg.record base)).acceptorArray k = u.acceptorArray k :=
      congrFun harray k
    rw [harr]
    exact hslot

/-- A learn goes out for a record that is durable. -/
theorem StoredBetween.answered (h : StoredBetween s)
    (durable : diskJournal.Durable s.trace (flatten r)) : StoredBetween (sendLearnMessage s r) :=
  ⟨h.soFar.send (learnPacket s.acceptorId r) ⟨_, learnOf_reports _ _, durable⟩ rfl rfl,
    fun k value => (h.slots k value).cons _⟩

/-- What `handle_lsync` answers with is durable. -/
theorem StoredBetween.read_durable (h : StoredBetween s)
    (clean : s.evicted cfg iid = true → s.syncedFor iid = true)
    (read : readRecord cfg env s iid = some r) (value : r.value.isSome) :
    diskJournal.Durable s.trace (flatten r) := by
  cases slot_cases cfg s iid with
  | newer he _ =>
      simp only [readRecord, he, if_true, diskLookupRecord, Option.map_eq_some_iff] at read
      obtain ⟨flat, hflat, rfl⟩ := read
      have hlast := h.soFar.logged.stored iid
      rw [AcceptorState.stored, hflat] at hlast
      obtain ⟨hwritten, hiid⟩ := Journal.written_of_last hlast.symm
      have himage : flatten
          { iid := flat.iid, proposerId := env.uninitProposerId s.trace.length,
            ballot := flat.ballot, valueBallot := flat.valueBallot, valueSize := flat.valueSize,
            anyEnabled := env.uninitAnyEnabled s.trace.length,
            value := some (memcpy flat.value flat.valueSize) } = flat := by
        simp only [flatten, Option.getD_some, memcpy_memcpy]
        rw [h.soFar.logged.tidy flat hwritten]
      rw [himage]
      exact hwritten.durable hiid (clean he)
  | same he heq =>
      have hr : s.slot cfg iid = r := by simpa [readRecord, he, ← heq] using read
      subst hr
      exact h.slots _ value
  | older he hne _ => simp [readRecord, he, hne] at read

/-- Every operation but a prepare. -/
theorem StoredBetween.op (h : StoredBetween s) (force : cfg.paxosAcceptorForceDiskFlush = true)
    {op : AcceptorOp} (other : ∀ msg, op ≠ .prepare msg) (stores : StoresAnswer cfg env s op)
    (run : handleOp cfg env s op = some t) : StoredBetween t := by
  cases handleOp_branch run with
  | @granted msg _ => exact absurd rfl (other msg)
  | applied applied =>
      obtain ⟨put, sync⟩ := stores applied
      exact h.accepted force put sync _
  | opened _ => exact h.opened cfg env _ _ _
  | @answered iid r read value =>
      have hconsult := h.step (consult_quiet cfg s iid)
      obtain ⟨new, htrace, -⟩ := (consult_quiet cfg s iid).trace
      refine hconsult.answered ?_
      rw [htrace]
      exact (h.read_durable stores read value).append new
  | refused iid => exact h.step (consult_quiet cfg s iid)

/-! ### A batch of promises -/

theorem StoredWaiting.step (h : StoredWaiting s) (step : QuietStep s t)
    (batch : t.promiseBatch = s.promiseBatch) : StoredWaiting t := by
  obtain ⟨new, htrace, -⟩ := step.trace
  refine ⟨h.soFar.step step, ?_, ?_, ?_⟩
  · rw [step.array, htrace]
    exact fun k value => (h.slots k value).append new
  · rw [batch]
    exact h.count_eq
  · intro p hp
    rw [batch] at hp
    obtain ⟨f, hf, hwritten⟩ := h.waiting p hp
    rw [htrace]
    exact ⟨f, hf, hwritten.append new⟩

theorem StoredWaiting.reset (h : StoredWaiting s) : StoredWaiting (resetPromiseBatch s) :=
  ⟨⟨⟨h.soFar.logged.stored, h.soFar.logged.tidy⟩, h.soFar.answers⟩, h.slots, rfl,
    fun _ hp => by cases hp⟩

theorem StoredWaiting.flush (h : StoredWaiting s)
    (durable : ∀ p ∈ s.promiseBatch.data,
      ∃ f : FlatRecord, f.promise = p ∧ diskJournal.Durable s.trace f) :
    StoredWaiting (flushSendBuffer s) := by
  have hanswer : ∀ size, AnswerStored (.send ⟨size, .promise s.promiseBatch⟩) s.trace :=
    fun _ p hp => durable p (List.mem_of_mem_take hp)
  refine ⟨h.soFar.send _ (hanswer _) rfl rfl, fun k value => (h.slots k value).cons _,
    h.count_eq, ?_⟩
  intro p hp
  obtain ⟨f, hf, hwritten⟩ := h.waiting p hp
  exact ⟨f, hf, hwritten.cons _⟩

theorem StoredWaiting.append (h : StoredWaiting s)
    (written : diskJournal.Written s.trace (flatten r)) :
    StoredWaiting ((appendPromise s r).emit (.log (.promised (promiseOf r)))) := by
  have hlog : QuietStep (appendPromise s r)
      ((appendPromise s r).emit (.log (.promised (promiseOf r)))) := .emit _ rfl nofun
  have happend : StoredWaiting (appendPromise s r) := by
    refine ⟨⟨⟨h.soFar.logged.stored, h.soFar.logged.tidy⟩, h.soFar.answers⟩, h.slots, ?_, ?_⟩
    · simp [appendPromise, h.count_eq]
    · intro p hp
      cases List.mem_append.mp hp with
      | inl hold => exact h.waiting p hold
      | inr hnew =>
          rw [List.mem_singleton.mp hnew, promiseOf_eq]
          exact ⟨_, rfl, written⟩
  exact happend.step hlog rfl

theorem StoredWaiting.put (h : StoredWaiting s) (force : cfg.paxosAcceptorForceDiskFlush = true)
    (put : env.putRet (s.putAt cfg iid) = 0) (r : AcceptorRecord) :
    StoredWaiting (LibFastPaxos.writeBack cfg env s iid r) ∧
      diskJournal.Written (LibFastPaxos.writeBack cfg env s iid r).trace (flatten r) := by
  have hwritten : diskJournal.Written (LibFastPaxos.writeBack cfg env s iid r).trace
      (flatten r) := by
    rw [writeBack_trace_of_put force put]
    exact ⟨_, List.mem_cons_of_mem _ List.mem_cons_self, rfl⟩
  obtain ⟨new, htrace, -⟩ := writeBack_extends cfg env s iid r
  refine ⟨⟨h.soFar.writeBack cfg env iid r, ?_, ?_, ?_⟩, hwritten⟩
  · intro k value
    cases writeBack_slots cfg env s iid r k with
    | inl hnew =>
        rw [hnew]
        exact hwritten
    | inr hold =>
        rw [hold] at value ⊢
        rw [htrace]
        exact (h.slots k value).append new
  · rw [(writeBack_frame r).2.1]
    exact h.count_eq
  · intro p hp
    rw [(writeBack_frame r).2.1] at hp
    obtain ⟨f, hf, hold⟩ := h.waiting p hp
    rw [htrace]
    exact ⟨f, hf, hold.append new⟩

theorem StoredWaiting.makeRoom (h : StoredWaiting s) {promiseSize : Int}
    (durable : promiseSize + s.sendBufferSize > maxUdpMsgSize → ∀ p ∈ s.promiseBatch.data,
      ∃ f : FlatRecord, f.promise = p ∧
        diskJournal.Durable (diskForceSyncrony cfg env s).trace f) :
    StoredWaiting (makeRoom cfg env s promiseSize) := by
  have hreset : ∀ u : AcceptorState, StoredWaiting u →
      StoredWaiting (if u.sendBufferSize = 0 then resetPromiseBatch u else u) := by
    intro u hu
    split
    · exact hu.reset
    · exact hu
  refine hreset _ ?_
  split
  · next full =>
      have hbatch : (diskForceSyncrony cfg env s).promiseBatch = s.promiseBatch := by simp
      refine (h.step (diskForceSyncrony_quiet cfg env s) hbatch).flush ?_
      rw [hbatch]
      exact durable full
  · exact h

/-- What waits is durable by the time a full batch is flushed. -/
theorem StoredWaiting.overflow_durable (h : StoredWaiting s)
    (force : cfg.paxosAcceptorForceDiskFlush = true)
    (put : env.putRet (s.putAt cfg iid) = 0)
    (stores : s.synced = true ∨ env.syncRet (s.putAt cfg iid + 1) = 0 ∨
      env.syncRet (s.putAt cfg iid + 2) = 0) (r : AcceptorRecord) :
    ∀ p ∈ s.promiseBatch.data, ∃ f : FlatRecord, f.promise = p ∧
      diskJournal.Durable
        (diskForceSyncrony cfg env (LibFastPaxos.writeBack cfg env s iid r)).trace f := by
  intro p hp
  obtain ⟨f, hf, hwritten⟩ := h.waiting p hp
  refine ⟨f, hf, ?_⟩
  obtain ⟨new, hconsult, -⟩ := (consult_quiet cfg s iid).trace
  have hput : (LibFastPaxos.writeBack cfg env s iid r).trace =
      .sync (env.syncRet (s.putAt cfg iid + 1)) :: .put (flatten r) 0 ::
        (s.consult cfg iid).trace := writeBack_trace_of_put force put
  have hlen : (LibFastPaxos.writeBack cfg env s iid r).trace.length = s.putAt cfg iid + 2 := by
    rw [hput]
    rfl
  have hafter : diskJournal.Written (.put (flatten r) 0 :: (s.consult cfg iid).trace) f := by
    rw [hconsult]
    exact (hwritten.append new).cons _
  rw [diskForceSyncrony_trace force, hlen, hput]
  rcases stores with clean | hfirst | hsecond
  · have hold : diskJournal.Durable s.trace f := hwritten.durable rfl clean
    rw [hconsult]
    exact (((hold.append new).cons _).cons _).cons _
  · exact .inr (.inl ⟨decide_eq_true hfirst, hafter⟩)
  · exact .inl ⟨decide_eq_true hsecond, hafter.cons _⟩

theorem promiseSize_record (msg : PrepareMsg) (blank : AcceptorRecord)
    (found : Option AcceptorRecord) :
    sizeofPromiseMsg + (msg.record blank found).valueSize = promiseSize found := by
  cases found <;> rfl

theorem makeRoom_extends (cfg : Config) (env : DiskEnv) (s : AcceptorState) (promiseSize : Int) :
    ∃ new, (LibFastPaxos.makeRoom cfg env s promiseSize).trace = new ++ s.trace := by
  have hreset : ∀ u : AcceptorState,
      (if u.sendBufferSize = 0 then resetPromiseBatch u else u).trace = u.trace := by
    intro u
    split <;> rfl
  simp only [LibFastPaxos.makeRoom]
  rw [hreset]
  split
  · obtain ⟨new, htrace, -⟩ := (diskForceSyncrony_quiet cfg env s).trace
    exact ⟨_ :: new, congrArg (_ :: ·) htrace⟩
  · exact ⟨[], rfl⟩

theorem StoredInBatch.step (h : StoredInBatch s) (step : QuietStep s t)
    (batch : t.promiseBatch = s.promiseBatch) : StoredInBatch t := by
  refine ⟨h.toStoredWaiting.step step batch, ?_⟩
  obtain ⟨new, htrace, -⟩ := step.trace
  rw [step.array, htrace, batch]
  exact fun none k value => (h.settled none k value).append new

theorem StoredInBatch.prepare (h : StoredInBatch s)
    (force : cfg.paxosAcceptorForceDiskFlush = true) {msg : PrepareMsg}
    (stores : StoresAnswer cfg env s (.prepare msg))
    (run : handleOp cfg env s (.prepare msg) = some t) : StoredInBatch t := by
  cases handleOp_branch run with
  | granted granted =>
      obtain ⟨put, room⟩ := stores granted
      let r := msg.record (blankRecord cfg s msg.iid) (readRecord cfg env s msg.iid)
      obtain ⟨hput, hwritten⟩ := h.toStoredWaiting.put force put r
      have hroom : StoredWaiting (LibFastPaxos.makeRoom cfg env
          (LibFastPaxos.writeBack cfg env s msg.iid r) (sizeofPromiseMsg + r.valueSize)) := by
        refine hput.makeRoom fun full => ?_
        have hsize : (LibFastPaxos.writeBack cfg env s msg.iid r).sendBufferSize =
            s.sendBufferSize := congrArg Outbox.sendBufferSize (writeBack_out cfg env s r msg.iid)
        rw [hsize, promiseSize_record] at full
        rw [(writeBack_frame r).2.1]
        exact h.overflow_durable force put (room full) r
      have hrest : diskJournal.Written (LibFastPaxos.makeRoom cfg env
          (LibFastPaxos.writeBack cfg env s msg.iid r) (sizeofPromiseMsg + r.valueSize)).trace
          (flatten r) := by
        obtain ⟨new, htrace⟩ := makeRoom_extends cfg env
          (LibFastPaxos.writeBack cfg env s msg.iid r) (sizeofPromiseMsg + r.valueSize)
        rw [htrace]
        exact hwritten.append new
      have happend := hroom.append hrest
      refine ⟨happend, fun empty => ?_⟩
      -- the promise just added waits
      have hcount := hroom.count_eq
      have hsum : (LibFastPaxos.makeRoom cfg env (LibFastPaxos.writeBack cfg env s msg.iid r)
          (sizeofPromiseMsg + r.valueSize)).promiseBatch.count + 1 ≤ 0 := empty
      omega
  | refused iid => exact h.step (consult_quiet cfg s iid) consult_frame.2.2.2.1

/-! ### Messages and runs -/

theorem StoredBetween.openBatch (h : StoredBetween s) : StoredInBatch (resetPromiseBatch s) := by
  refine ⟨⟨⟨⟨h.soFar.logged.stored, h.soFar.logged.tidy⟩, h.soFar.answers⟩, ?_, rfl, ?_⟩, ?_⟩
  · exact fun k value => (h.slots k value).written
  · intro p hp
    cases hp
  · exact fun _ => h.slots

theorem StoredInBatch.close (h : StoredInBatch s) (force : cfg.paxosAcceptorForceDiskFlush = true)
    {b : PrepareBatchMsg} (stores : StoresRest env s (.prepare b)) :
    StoredBetween (closeMessage cfg env s (.prepare b)) := by
  simp only [closeMessage]
  split
  · next hcount =>
      have hdurable : ∀ f, diskJournal.Written s.trace f →
          diskJournal.Durable (diskForceSyncrony cfg env s).trace f := by
        intro f hwritten
        rw [diskForceSyncrony_trace force]
        cases stores hcount with
        | inl clean => exact (hwritten.durable rfl clean).cons _
        | inr hsync => exact .inl ⟨decide_eq_true hsync, hwritten⟩
      have hbatch : (diskForceSyncrony cfg env s).promiseBatch = s.promiseBatch := by simp
      have hflush := (h.toStoredWaiting.step (diskForceSyncrony_quiet cfg env s) hbatch).flush
        (by
          rw [hbatch]
          intro p hp
          obtain ⟨f, hf, hwritten⟩ := h.waiting p hp
          exact ⟨f, hf, hdurable f hwritten⟩)
      refine ⟨hflush.soFar, fun k value => ?_⟩
      have harray : (flushSendBuffer (diskForceSyncrony cfg env s)).acceptorArray =
          s.acceptorArray := by simp
      rw [harray] at value ⊢
      exact (hdurable _ (h.slots k value)).cons _
  · next hcount => exact ⟨h.soFar, h.settled (Int.not_lt.mp hcount)⟩

theorem StoredBetween.message (h : StoredBetween s)
    (force : cfg.paxosAcceptorForceDiskFlush = true) {msg : PaxosMsg}
    (stores : MessageStores cfg env s msg) (run : handleMessage cfg env s msg = some t) :
    StoredBetween t := by
  rw [handleMessage_eq] at run
  obtain ⟨u, hu, rfl⟩ := Option.map_eq_some_iff.mp run
  have hops := stores.answers
  have hrest := stores.rest u hu
  rw [MessageMeets] at hops
  cases hdata : msg.data with
  | prepare b =>
      rw [hdata] at hops hu hrest
      have hbatch : StoredInBatch u := by
        refine Meets.invariant (P := fun op => ∃ m, op = .prepare m) StoredInBatch ?_ ?_
          h.openBatch hops hu
        · rintro s op t ⟨m, rfl⟩ hs stores run
          exact hs.prepare force stores run
        · intro op hop
          obtain ⟨m, -, rfl⟩ := List.mem_map.mp hop
          exact ⟨m, rfl⟩
      exact hbatch.close force hrest
  | accept _ | lsync _ | anyval _ | promise _ | learn _ =>
      rw [hdata] at hops hu
      refine Meets.invariant (P := fun op => ∀ m, op ≠ .prepare m) StoredBetween ?_ ?_ h hops hu
      · exact fun s op t other hs stores run => hs.op force other stores run
      · exact ops_noPrepare nofun

theorem acceptorStart_storedBetween (id : Int) : StoredBetween (acceptorStart id) := by
  refine ⟨⟨⟨fun _ => rfl, ?_⟩, trivial⟩, fun _ value => by cases value⟩
  rintro f ⟨e, he, -⟩
  cases he

end Stored

/-- What an acceptor answers is on disk when every put and sync that the answers need succeeds. -/
theorem answers_stored {cfg : Config} {env : DiskEnv}
    (force : cfg.paxosAcceptorForceDiskFlush = true) {id : Int} {msgs : List PaxosMsg}
    (stores : Meets (handleMessage cfg env) (MessageStores cfg env) (acceptorStart id) msgs)
    {s : AcceptorState} (run : runMessages cfg env (acceptorStart id) msgs = some s) :
    s.AnswersStored := by
  have h := Meets.invariant (P := fun _ => True) StoredBetween
    (fun _ _ _ _ hs stores run => hs.message force stores run) (fun _ _ => trivial)
    (acceptorStart_storedBetween id) stores run
  exact h.soFar.answers

/-- The shipped configuration with the flush of the comment in config.h. -/
def forcedFlush : Config := { Config.shipped with paxosAcceptorForceDiskFlush := true }

/-- A promise, a learn for the value and the learn again from the slot. -/
def answeredRun : List PaxosMsg :=
  [preparePacket [⟨0, 20⟩], acceptPacket ⟨0, 20, 0, 1, [7]⟩, lsyncPacket [0]]

theorem answers_stored_quiet :
    ∃ s, runMessages forcedFlush quietDisk (acceptorStart 0) answeredRun = some s ∧
      s.AnswersStored :=
  ⟨_, rfl, answers_stored rfl
    (by decide : Meets (handleMessage forcedFlush quietDisk) (MessageStores forcedFlush quietDisk)
      (acceptorStart 0) answeredRun) rfl⟩

/-- A disk that refuses every put. -/
def fullDisk : DiskEnv := { quietDisk with putRet := fun _ => 28 }

/-- The promise goes out although its put failed. -/
theorem fullDisk_promises :
    ∃ s, runMessages forcedFlush fullDisk (acceptorStart 0) [preparePacket [⟨0, 20⟩]] = some s ∧
      ¬ s.AnswersStored := by
  refine ⟨_, rfl, fun stored => ?_⟩
  obtain ⟨f, -, durable⟩ := stored.1 ⟨0, 20, -1, 0, []⟩ (by decide)
  obtain ⟨e, he, wrote⟩ := durable.written
  have hnone : ∀ e' ∈ ([.sync 0, .log (.promised ⟨0, 20, -1, 0, []⟩),
      .put ⟨0, 20, -1, 0, []⟩ 28] : List Effect), diskJournal.wrote e' = none := by decide
  rw [hnone e he] at wrote
  cases wrote

end LibFastPaxos
