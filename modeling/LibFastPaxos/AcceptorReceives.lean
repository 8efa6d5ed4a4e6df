import LibFastPaxos.AcceptorRuns
import LibFastPaxos.Wire

/-!
`get_next_message` on the bytes of its buffer. The size field is compared with the length
of the datagram in unsigned arithmetic, and nothing else is checked; what a malformed
datagram does is up to the tests that the handlers make on any message.
-/

namespace LibFastPaxos

open Memory Transition

/-- The cast of `handle_message`; the inner `none` is a type that an acceptor ignores. -/
def readRequest (mem : Bytes) (type : Int) : Option (Option PaxosData) :=
  if type = paxosPrepare then (readPrepareBatch mem sizeofPaxosMsg).map (some ∘ .prepare)
  else if type = paxosAccept then (readAccept mem sizeofPaxosMsg).map (some ∘ .accept)
  else if type = paxosLsync then (readLsync mem sizeofPaxosMsg).map (some ∘ .lsync)
  else if type = paxosAnyval then (readAnyval mem sizeofPaxosMsg).map (some ∘ .anyval)
  else some none

section Receive

variable (cfg : Config) (env : DiskEnv) (s : AcceptorState) (buf : UdpBuffer) (d : Datagram)

/-- `none` is a read outside the buffer, or the NULL record of `handle_anyval`. -/
def getNextMessage : Option AcceptorState :=
  let mem := buf.receive d
  (intAt mem 0).bind fun size =>
  if sizeT size ≠ sizeT d.bytes.length - sizeT sizeofPaxosMsg then some s
  else
    (intAt mem 4).bind fun type =>
    (readRequest mem type).bind fun
      | none => some s
      | some data => handleMessage cfg env s { size := size, data := data }

end Receive

/-- Nothing was recorded, promised, accepted or sent. -/
structure AcceptorState.Untouched (s t : AcceptorState) : Prop where
  acceptorArray : t.acceptorArray = s.acceptorArray
  accDb : t.accDb = s.accDb
  log : t.log = s.log
  sent : t.sent = s.sent

/-- The handler leaves a message of this kind alone. -/
def Refuses (cfg : Config) (env : DiskEnv) (s : AcceptorState) : AcceptorOp → Prop
  | .prepare msg =>
      ¬ msg.Granted (readRecord cfg env s msg.iid) ∨
        (s.evicted cfg msg.iid = true ∧ readRecord cfg env s msg.iid = none ∧ ¬ -1 < msg.ballot)
  | .accept amsg => ¬ amsg.Applied cfg (readRecord cfg env s amsg.iid)
  | .lsync iid => ∀ r, readRecord cfg env s iid = some r → r.value = none
  | .anyval iid ballot => ¬ AnyvalApplied ballot (readRecord cfg env s iid)

/-- The datagram is stopped by the size field, by its type, or by every handler it reaches. -/
inductive AcceptorStops (cfg : Config) (env : DiskEnv) (s : AcceptorState) (buf : UdpBuffer)
    (d : Datagram) : Prop where
  | size {size : Int} (read : intAt (buf.receive d) 0 = some size)
      (differs : size ≠ d.bytes.length - sizeofPaxosMsg)
  | type {type : Int} (read : intAt (buf.receive d) 4 = some type)
      (ignored : readRequest (buf.receive d) type = some none)
  | refused {type : Int} {data : PaxosData} (read : intAt (buf.receive d) 4 = some type)
      (request : readRequest (buf.receive d) type = some (some data))
      (refused : Meets (handleOp cfg env) (Refuses cfg env) (openMessage s data) data.ops)

/-- A well-formed datagram is handled as the message it encodes, any other changes nothing. -/
structure AcceptorReceives (cfg : Config) (env : DiskEnv) (s : AcceptorState) (buf : UdpBuffer)
    (d : Datagram) : Prop where
  encoded : ∀ msg, d.Encodes msg → getNextMessage cfg env s buf d = handleMessage cfg env s msg
  malformed : (∀ msg, ¬ d.Encodes msg) →
    ∃ t, getNextMessage cfg env s buf d = some t ∧ s.Untouched t

section Operations

variable {cfg : Config} {env : DiskEnv} {s t : AcceptorState} {op : AcceptorOp}

/-- How much an acceptor has done. -/
def AcceptorState.activity (s : AcceptorState) : Nat := s.log.length + s.sent.length

theorem AcceptorState.Untouched.activity (h : s.Untouched t) : t.activity = s.activity := by
  rw [AcceptorState.activity, h.log, h.sent, ← AcceptorState.activity]

theorem consult_untouched (cfg : Config) (s : AcceptorState) (iid : Int) :
    s.Untouched (s.consult cfg iid) :=
  ⟨consult_frame.1, consult_frame.2.1, consult_frame.2.2.2.2.1, consult_frame.2.2.2.2.2⟩

/-- The state after a message that is left alone. -/
def AcceptorOp.refusedState (cfg : Config) (s : AcceptorState) : AcceptorOp → AcceptorState
  | .prepare msg => s.consult cfg msg.iid
  | .accept amsg => s.consult cfg amsg.iid
  | .lsync iid => s.consult cfg iid
  | .anyval iid _ => s.consult cfg iid

theorem handleOp_refused (refused : Refuses cfg env s op) :
    handleOp cfg env s op = some (op.refusedState cfg s) := by
  cases op with
  | prepare msg =>
      cases refused with
      | inl h => exact congrArg some (handlePrepare_refused h)
      | inr h => exact congrArg some (handlePrepare_below h.1 h.2.1 h.2.2)
  | accept amsg => exact congrArg some (handleAccept_refused refused)
  | lsync iid =>
      have heq : handleLsync cfg env s iid = s.consult cfg iid := by
        rw [handleLsync_eq]
        cases hr : readRecord cfg env s iid with
        | none => rfl
        | some r => simp [refused r hr]
      exact congrArg some heq
  | anyval iid ballot => exact handleAnyval_refused refused

theorem sent_length_makeRoom (o : Outbox) (promiseSize : Int) :
    o.sent.length ≤ (o.makeRoom promiseSize).sent.length := by
  simp only [Outbox.makeRoom]
  split <;> split <;> simp [Outbox.flush, Outbox.reset]

theorem writeBack_activity (cfg : Config) (env : DiskEnv) (s : AcceptorState) (iid : Int)
    (r : AcceptorRecord) : (writeBack cfg env s iid r).activity = s.activity := by
  rw [AcceptorState.activity, (writeBack_frame r).2.2.1, (writeBack_frame r).2.2.2,
    ← AcceptorState.activity]

variable (cfg env s) in
theorem addPromise_activity (r : AcceptorRecord) :
    s.activity < (addPromiseToSendBuffer cfg env s r).activity := by
  have hlog : (addPromiseToSendBuffer cfg env s r).log.length = s.log.length + 1 := by
    rw [(addPromiseToSendBuffer_frame cfg env s r).2.2.2, List.length_cons]
  have hout := congrArg (List.length ∘ Outbox.sent) (addPromiseToSendBuffer_out cfg env s r)
  have hroom := sent_length_makeRoom s.out (sizeofPromiseMsg + (promiseOf r).valueSize)
  have hsent : s.sent.length ≤ (addPromiseToSendBuffer cfg env s r).sent.length :=
    hroom.trans_eq hout.symm
  rw [AcceptorState.activity, AcceptorState.activity, hlog]
  omega

theorem sendLearn_activity (r : AcceptorRecord) :
    (sendLearnMessage s r).activity = s.activity + 1 := by
  have hframe := sendLearnMessage_frame s r
  rw [AcceptorState.activity, hframe.2.2.2.2.1, hframe.2.2.2.2.2, List.length_cons, ← Nat.add_assoc,
    ← AcceptorState.activity]

theorem emit_log_activity (s : AcceptorState) (line : LogLine) :
    (s.emit (.log line)).activity = s.activity + 1 := by
  have hlog : (s.emit (.log line)).log = line :: s.log := rfl
  have hsent : (s.emit (.log line)).sent = s.sent := rfl
  rw [AcceptorState.activity, AcceptorState.activity, hlog, hsent, List.length_cons]
  omega

theorem diskForceSyncrony_activity (cfg : Config) (env : DiskEnv) (s : AcceptorState) :
    (diskForceSyncrony cfg env s).activity = s.activity := by
  have hframe := diskForceSyncrony_frame cfg env s
  rw [AcceptorState.activity, hframe.2.2.2.2.1, hframe.2.2.2.2.2, ← AcceptorState.activity]

/-- A handler that does not refuse leaves a trace. -/
theorem handleOp_acts (acts : ¬ Refuses cfg env s op) (run : handleOp cfg env s op = some t) :
    s.activity < t.activity := by
  cases op with
  | prepare msg =>
      obtain rfl := Option.some.inj run
      obtain ⟨granted, high⟩ := not_or.mp acts
      rw [handlePrepare_granted (fun newer missing => by
        by_contra low
        exact high ⟨newer, missing, low⟩) (not_not.mp granted)]
      have hpromise := addPromise_activity cfg env
        (writeBack cfg env s msg.iid
          (msg.record (blankRecord cfg s msg.iid) (readRecord cfg env s msg.iid)))
        (msg.record (blankRecord cfg s msg.iid) (readRecord cfg env s msg.iid))
      rwa [writeBack_activity] at hpromise
  | accept amsg =>
      obtain rfl := Option.some.inj run
      rw [handleAccept_applied (not_not.mp acts)]
      dsimp only
      rw [sendLearn_activity, emit_log_activity, diskForceSyncrony_activity, writeBack_activity]
      omega
  | lsync iid =>
      obtain rfl := Option.some.inj run
      obtain ⟨r, read, value⟩ : ∃ r, readRecord cfg env s iid = some r ∧ r.value ≠ none := by
        simpa [Refuses] using acts
      rw [handleLsync_eq, read]
      dsimp only
      rw [if_pos (Option.isSome_iff_ne_none.mpr value), sendLearn_activity,
        (consult_untouched cfg s iid).activity]
      omega
  | anyval iid ballot =>
      have run : handleAnyval cfg env s iid ballot = some t := run
      by_cases present : s.evicted cfg iid = true → readRecord cfg env s iid ≠ none
      · rw [handleAnyval_applied present (not_not.mp acts)] at run
        obtain rfl := Option.some.inj run
        rw [emit_log_activity, writeBack_activity]
        omega
      · obtain ⟨newer, missing⟩ : s.evicted cfg iid = true ∧ readRecord cfg env s iid = none := by
          simpa using present
        rw [handleAnyval_missing newer missing] at run
        cases run

theorem refusedState_untouched (cfg : Config) (s : AcceptorState) (op : AcceptorOp) :
    s.Untouched (op.refusedState cfg s) := by
  cases op <;> exact consult_untouched cfg s _

theorem handleOp_monotone (run : handleOp cfg env s op = some t) : s.activity ≤ t.activity := by
  by_cases refused : Refuses cfg env s op
  · rw [handleOp_refused refused] at run
    obtain rfl := Option.some.inj run
    exact (refusedState_untouched cfg s op).activity.ge
  · exact (handleOp_acts refused run).le

theorem AcceptorState.Untouched.trans {u : AcceptorState} (h : s.Untouched t)
    (h' : t.Untouched u) : s.Untouched u :=
  ⟨h'.acceptorArray.trans h.acceptorArray, h'.accDb.trans h.accDb, h'.log.trans h.log,
    h'.sent.trans h.sent⟩

theorem ops_refused {ops : List AcceptorOp}
    (refused : Meets (handleOp cfg env) (Refuses cfg env) s ops) :
    ∃ t, ops.foldlM (handleOp cfg env) s = some t ∧ s.Untouched t ∧
      t.promiseBatch = s.promiseBatch := by
  induction ops generalizing s with
  | nil => exact ⟨s, rfl, ⟨rfl, rfl, rfl, rfl⟩, rfl⟩
  | cons op ops ih =>
      have hop := handleOp_refused refused.1
      have hbatch : (op.refusedState cfg s).promiseBatch = s.promiseBatch := by
        cases op <;> exact consult_frame.2.2.2.1
      obtain ⟨t, run, huntouched, hsame⟩ := ih (refused.2 _ hop)
      refine ⟨t, ?_, (refusedState_untouched cfg s op).trans huntouched, hsame.trans hbatch⟩
      rw [List.foldlM_cons, hop]
      exact run

theorem ops_monotone {ops : List AcceptorOp} (run : ops.foldlM (handleOp cfg env) s = some t) :
    s.activity ≤ t.activity := by
  induction ops generalizing s with
  | nil =>
      obtain rfl := Option.some.inj run
      exact le_rfl
  | cons op ops ih =>
      rw [List.foldlM_cons] at run
      obtain ⟨u, hu, rest⟩ := Option.bind_eq_some_iff.mp run
      exact (handleOp_monotone hu).trans (ih rest)

/-- Operations that leave no trace were refused. -/
theorem ops_idle {ops : List AcceptorOp} (run : ops.foldlM (handleOp cfg env) s = some t)
    (idle : t.activity ≤ s.activity) : Meets (handleOp cfg env) (Refuses cfg env) s ops := by
  induction ops generalizing s with
  | nil => trivial
  | cons op ops ih =>
      rw [List.foldlM_cons] at run
      obtain ⟨u, hu, rest⟩ := Option.bind_eq_some_iff.mp run
      have hrest := ops_monotone rest
      have hrefused : Refuses cfg env s op := by
        by_contra acts
        have hacts := handleOp_acts acts hu
        omega
      refine ⟨hrefused, fun v hv => ?_⟩
      obtain rfl := Option.some.inj (hu.symm.trans hv)
      exact ih rest (idle.trans (handleOp_monotone hu))

theorem openMessage_untouched (s : AcceptorState) (data : PaxosData) :
    s.Untouched (openMessage s data) := by
  cases data with
  | prepare _ => exact ⟨rfl, rfl, rfl, rfl⟩
  | accept _ | lsync _ | promise _ | learn _ | anyval _ => exact ⟨rfl, rfl, rfl, rfl⟩

theorem closeMessage_activity (cfg : Config) (env : DiskEnv) (s : AcceptorState)
    (data : PaxosData) : s.activity ≤ (closeMessage cfg env s data).activity := by
  cases data with
  | prepare b =>
      simp only [closeMessage]
      split
      · rw [AcceptorState.activity, AcceptorState.activity,
          (flushSendBuffer_frame (diskForceSyncrony cfg env s)).2.2.2.2, flushSendBuffer_sent,
          (diskForceSyncrony_frame cfg env s).2.2.2.2.1,
          (diskForceSyncrony_frame cfg env s).2.2.2.2.2, List.length_cons]
        omega
      · exact le_rfl
  | accept _ | lsync _ | promise _ | learn _ | anyval _ => exact le_rfl

theorem closeMessage_empty (cfg : Config) (env : DiskEnv) {s t : AcceptorState}
    (data : PaxosData) (batch : t.promiseBatch = (openMessage s data).promiseBatch) :
    closeMessage cfg env t data = t := by
  cases data with
  | prepare b =>
      have hcount : ¬ t.promiseBatch.count > 0 := by
        rw [batch]
        exact Int.lt_irrefl 0
      simp only [closeMessage, if_neg hcount]
  | accept _ | lsync _ | promise _ | learn _ | anyval _ => rfl

/-- A message leaves the acceptor alone when each of its operations is refused, and only then. -/
theorem handleMessage_untouched_iff (cfg : Config) (env : DiskEnv) (s : AcceptorState)
    (msg : PaxosMsg) :
    (∃ t, handleMessage cfg env s msg = some t ∧ s.Untouched t) ↔
      Meets (handleOp cfg env) (Refuses cfg env) (openMessage s msg.data) msg.data.ops := by
  have hopen := openMessage_untouched s msg.data
  rw [handleMessage_eq]
  constructor
  · intro ⟨t, run, untouched⟩
    obtain ⟨u, hu, rfl⟩ := Option.map_eq_some_iff.mp run
    have hclose := closeMessage_activity cfg env u msg.data
    refine ops_idle hu ?_
    rw [hopen.activity, ← untouched.activity]
    exact hclose
  · intro refused
    obtain ⟨t, run, untouched, batch⟩ := ops_refused refused
    refine ⟨t, ?_, hopen.trans untouched⟩
    rw [run, Option.map_some, closeMessage_empty cfg env msg.data batch]

end Operations

/-! ### Datagrams -/

section Datagrams

variable {cfg : Config} {env : DiskEnv} {s : AcceptorState} {buf : UdpBuffer} {d : Datagram}

/-- A request that was encoded is read back; the other types are ignored. -/
theorem readRequest_of_holds {mem : Bytes} {data : PaxosData} (fits : data.Fits)
    (h : Holds mem sizeofPaxosMsg data.bytes) :
    readRequest mem data.type = some (some data) ∨
      (readRequest mem data.type = some none ∧
        ∀ cfg env s size, handleMessage cfg env s { size := size, data := data } = some s) := by
  cases data with
  | prepare b =>
      have hread := readPrepareBatch_of_holds fits h
      exact .inl (by simp [readRequest, PaxosData.type, hread])
  | accept m =>
      have hread := readAccept_of_holds fits h
      exact .inl (by simp [readRequest, PaxosData.type, paxosPrepare, paxosAccept, hread])
  | lsync m =>
      have hread := readLsync_of_holds fits h
      exact .inl (by
        simp [readRequest, PaxosData.type, paxosPrepare, paxosAccept, paxosLsync, hread])
  | anyval m =>
      have hread := readAnyval_of_holds fits h
      exact .inl (by
        simp [readRequest, PaxosData.type, paxosPrepare, paxosAccept, paxosLsync, paxosAnyval,
          hread])
  | promise _ | learn _ => exact .inr ⟨rfl, fun _ _ _ _ => rfl⟩

theorem getNextMessage_encoded (cfg : Config) (env : DiskEnv) (s : AcceptorState)
    (buf : UdpBuffer) {msg : PaxosMsg} (h : d.Encodes msg) :
    getNextMessage cfg env s buf d = handleMessage cfg env s msg := by
  obtain ⟨hsize, htype, hdata⟩ := h.header buf
  have hcheck : sizeT msg.size = sizeT d.bytes.length - sizeT sizeofPaxosMsg :=
    (sizeT_eq_iff (intAt_fits hsize) (by omega) d.length_le).mpr h.size_eq
  simp only [getNextMessage, hsize, htype, hcheck, Option.bind_some, ne_eq, not_true, if_false]
  cases readRequest_of_holds h.fits hdata with
  | inl hrequest => simp only [hrequest, Option.bind_some]
  | inr hignored =>
      obtain ⟨hrequest, hsame⟩ := hignored
      simp only [hrequest, Option.bind_some]
      exact (hsame cfg env s msg.size).symm

theorem acceptorStops_iff {size type : Int} (hsize : intAt (buf.receive d) 0 = some size)
    (htype : intAt (buf.receive d) 4 = some type) :
    AcceptorStops cfg env s buf d ↔
      size ≠ d.bytes.length - sizeofPaxosMsg ∨
        readRequest (buf.receive d) type = some none ∨
        ∃ data, readRequest (buf.receive d) type = some (some data) ∧
          Meets (handleOp cfg env) (Refuses cfg env) (openMessage s data) data.ops := by
  constructor
  · intro h
    cases h with
    | size read differs =>
        obtain rfl := Option.some.inj (read.symm.trans hsize)
        exact .inl differs
    | type read ignored =>
        obtain rfl := Option.some.inj (read.symm.trans htype)
        exact .inr (.inl ignored)
    | refused read request refused =>
        obtain rfl := Option.some.inj (read.symm.trans htype)
        exact .inr (.inr ⟨_, request, refused⟩)
  · rintro (differs | ignored | ⟨data, request, refused⟩)
    · exact .size hsize differs
    · exact .type htype ignored
    · exact .refused htype request refused

theorem getNextMessage_untouched_iff (cfg : Config) (env : DiskEnv) (s : AcceptorState)
    (buf : UdpBuffer) (d : Datagram) :
    (∃ t, getNextMessage cfg env s buf d = some t ∧ s.Untouched t) ↔
      AcceptorStops cfg env s buf d := by
  obtain ⟨size, hsize⟩ := receive_int buf d 0 (by decide) (by decide)
  obtain ⟨type, htype⟩ := receive_int buf d 4 (by decide) (by decide)
  have hcheck := sizeT_eq_iff (intAt_fits hsize) (n := d.bytes.length) (by omega) d.length_le
  have hself : s.Untouched s := ⟨rfl, rfl, rfl, rfl⟩
  rw [acceptorStops_iff hsize htype]
  simp only [getNextMessage, hsize, htype, Option.bind_some, ne_eq, hcheck]
  by_cases heq : size = d.bytes.length - sizeofPaxosMsg
  · simp only [heq, not_true, if_false, false_or]
    cases hrequest : readRequest (buf.receive d) type with
    | none => simp
    | some request =>
        cases request with
        | none => simpa using hself
        | some data =>
            simp only [Option.bind_some, Option.some.injEq, reduceCtorEq, false_or,
              exists_eq_left']
            exact handleMessage_untouched_iff cfg env s _
  · simp only [heq, not_false_eq_true, if_true, true_or, iff_true]
    exact ⟨s, rfl, hself⟩

/-- An acceptor handles well-formed datagrams as the messages they encode and is left alone
by a malformed one exactly when its size field, its type or every handler stops it. -/
theorem acceptor_receives_iff (cfg : Config) (env : DiskEnv) (s : AcceptorState)
    (buf : UdpBuffer) (d : Datagram) :
    AcceptorReceives cfg env s buf d ↔
      (∃ msg, d.Encodes msg) ∨ AcceptorStops cfg env s buf d := by
  constructor
  · intro h
    by_cases encoded : ∃ msg, d.Encodes msg
    · exact .inl encoded
    · exact .inr ((getNextMessage_untouched_iff cfg env s buf d).mp
        (h.malformed (not_exists.mp encoded)))
  · intro h
    refine ⟨fun msg encoded => getNextMessage_encoded cfg env s buf encoded, fun malformed => ?_⟩
    cases h with
    | inl encoded =>
        obtain ⟨msg, hmsg⟩ := encoded
        exact absurd hmsg (malformed msg)
    | inr stops => exact (getNextMessage_untouched_iff cfg env s buf d).mpr stops

end Datagrams

end LibFastPaxos
