import LibFastPaxos.AcceptorReceives
import LibFastPaxos.PromiseBuffer

/-!
From the promises that an acceptor grants to the promises that a leader decodes. The
acceptor is any that datagrams, malformed ones among them, can lead to; what its records
and its disk hold then fits into the fields of a promise.
-/

namespace LibFastPaxos

open Memory Transition

/-! ### What the records hold -/

/-- The property holds of every slot and of every record on disk. -/
structure AcceptorState.All (P : FlatRecord → Prop) (s : AcceptorState) : Prop where
  slots : ∀ k, P (flatten (s.acceptorArray k))
  disk : ∀ recno f, s.accDb recno = some f → P f

/-- The fields are those of a promise, and the value is all there unless it is too large. -/
structure FlatRecord.Fits (f : FlatRecord) : Prop where
  fields : ∀ x ∈ f.promise.fields, FitsInt32 x
  length : f.valueSize ≤ paxosMaxValueSize → f.value.length = f.valueSize.toNat

structure FlatRecord.Sized (f : FlatRecord) : Prop where
  nonneg : 0 ≤ f.valueSize
  le_max : f.valueSize ≤ paxosMaxValueSize

structure AcceptorState.Fits (s : AcceptorState) : Prop where
  acceptorId : FitsInt32 s.acceptorId
  records : s.All FlatRecord.Fits

/-- What is stored makes promises and learns that can be sent. -/
structure AcceptorState.Sendable (s : AcceptorState) : Prop where
  fits : s.Fits
  sizes : s.All FlatRecord.Sized

/-- A copy of the record, as `disk_lookup_record` makes it. -/
def FlatRecord.copied (f : FlatRecord) : FlatRecord :=
  { f with value := memcpy f.value f.valueSize }

/-- The operation of a message whose fields are 32-bit integers. -/
def AcceptorOp.Fits : AcceptorOp → Prop
  | .prepare msg => msg.Fits
  | .accept amsg => amsg.image.Fits
  | .lsync _ => True
  | .anyval iid ballot => (anyvalImage iid ballot).Fits

/-- An accept of a value that a client may submit. -/
def AcceptorOp.Sized : AcceptorOp → Prop
  | .accept amsg => amsg.image.Sized
  | .prepare _ | .lsync _ | .anyval _ _ => True

section Records

variable {cfg : Config} {env : DiskEnv} {s t : AcceptorState} {P : FlatRecord → Prop}
  {iid : Int} {r : AcceptorRecord}

theorem AcceptorState.All.congr (h : s.All P) (array : t.acceptorArray = s.acceptorArray)
    (db : t.accDb = s.accDb) : t.All P :=
  ⟨fun k => array ▸ h.slots k, fun recno f hf => h.disk recno f (db ▸ hf)⟩

theorem AcceptorState.All.writeBack (h : s.All P) (cfg : Config) (env : DiskEnv) (iid : Int)
    (written : P (flatten r)) : (writeBack cfg env s iid r).All P := by
  constructor
  · intro k
    cases writeBack_slots cfg env s iid r k with
    | inl new => rw [new]; exact written
    | inr old => rw [old]; exact h.slots k
  · intro recno f hf
    have hdb : ((s.consult cfg iid).store r (recordPtr cfg s iid)).accDb = s.accDb := by
      rw [(store_frame _ r _).1, consult_frame.2.1]
    cases diskUpdateRecord_cases cfg env ((s.consult cfg iid).store r (recordPtr cfg s iid)) r with
    | inl failed =>
        obtain ⟨ret, _, heq⟩ := failed
        rw [LibFastPaxos.writeBack, heq, (emit_frame _ _).2.1, hdb] at hf
        exact h.disk recno f hf
    | inr stored =>
        rw [LibFastPaxos.writeBack, stored, (diskForceSyncrony_frame cfg env _).2.1,
          (writeDb_frame _ _ _).2.1, (emit_frame _ _).2.1, hdb, Function.update_apply] at hf
        split at hf
        · exact Option.some.inj hf ▸ written
        · exact h.disk recno f hf

theorem AcceptorState.All.read (h : s.All P) (copied : ∀ f, P f → P f.copied)
    (read : readRecord cfg env s iid = some r) : P (flatten r) := by
  cases slot_cases cfg s iid with
  | newer he _ =>
      simp only [readRecord, he, if_true, diskLookupRecord, Option.map_eq_some_iff] at read
      obtain ⟨f, hf, rfl⟩ := read
      have hcopy := copied f (h.disk _ f hf)
      simpa [flatten, FlatRecord.copied, memcpy_memcpy] using hcopy
  | same he heq =>
      have hr : s.slot cfg iid = r := by simpa [readRecord, he, ← heq] using read
      rw [← hr]
      exact h.slots _
  | older he hne _ => simp [readRecord, he, hne] at read

theorem AcceptorState.All.and {Q : FlatRecord → Prop} (h : s.All P) (h' : s.All Q) :
    s.All fun f => P f ∧ Q f :=
  ⟨fun k => ⟨h.slots k, h'.slots k⟩, fun recno f hf => ⟨h.disk recno f hf, h'.disk recno f hf⟩⟩

theorem FlatRecord.Fits.copied {f : FlatRecord} (h : f.Fits) : f.copied.Fits :=
  ⟨h.fields, fun hle => by simp [FlatRecord.copied, memcpy, h.length hle]⟩

theorem FlatRecord.Sized.copied {f : FlatRecord} (h : f.Sized) : f.copied.Sized :=
  ⟨h.nonneg, h.le_max⟩

/-- A record that fits and whose size is in range makes a promise that can be sent. -/
theorem FlatRecord.promise_small {f : FlatRecord} (fits : f.Fits) (sized : f.Sized) :
    f.promise.Small := by
  have hlen := fits.length sized.le_max
  refine ⟨⟨fits.fields, ?_⟩, sized.le_max⟩
  simp only [FlatRecord.promise, hlen, Int.toNat_of_nonneg sized.nonneg]

/-- The image of a granted prepare. -/
theorem flatten_record (msg : PrepareMsg) (blank : AcceptorRecord)
    (found : Option AcceptorRecord) :
    flatten (msg.record blank found) = msg.image (found.map flatten) := by
  cases found with
  | none => simp [PrepareMsg.record, PrepareMsg.image, flatten, memcpy_zero]
  | some r => rfl

theorem PrepareMsg.image_fits {msg : PrepareMsg} (fits : msg.Fits) {found : Option FlatRecord}
    (h : ∀ f, found = some f → f.Fits) : (msg.image found).Fits := by
  have hiid : FitsInt32 msg.iid := fits _ List.mem_cons_self
  have hballot : FitsInt32 msg.ballot := fits _ (List.mem_cons_of_mem _ List.mem_cons_self)
  cases found with
  | none =>
      have hnone : FitsInt32 (-1) ∧ FitsInt32 0 := by decide
      refine ⟨?_, fun _ => rfl⟩
      simpa [PrepareMsg.image, FlatRecord.promise, PromiseMsg.fields] using
        ⟨hiid, hballot, hnone⟩
  | some f =>
      have hf := (h f rfl).fields
      simp only [FlatRecord.promise, PromiseMsg.fields, List.forall_mem_cons] at hf
      refine ⟨?_, (h f rfl).length⟩
      simpa [PrepareMsg.image, FlatRecord.promise, PromiseMsg.fields] using
        ⟨hf.1, hballot, hf.2.2.1, hf.2.2.2.1⟩

theorem PrepareMsg.image_sized {msg : PrepareMsg} {found : Option FlatRecord}
    (h : ∀ f, found = some f → f.Sized) : (msg.image found).Sized := by
  cases found with
  | none => exact ⟨Int.le_refl 0, show (0 : Int) ≤ 8960 by decide⟩
  | some f => exact ⟨(h f rfl).nonneg, (h f rfl).le_max⟩

theorem AcceptorState.All.found (h : s.All P) (cfg : Config) (env : DiskEnv) (iid : Int)
    (copied : ∀ f, P f → P f.copied) :
    ∀ f, (readRecord cfg env s iid).map flatten = some f → P f := by
  intro f hf
  obtain ⟨r, hr, rfl⟩ := Option.map_eq_some_iff.mp hf
  exact h.read copied hr

/-- A prepare writes at most the image that it is granted. -/
theorem AcceptorState.All.prepare (h : s.All P) {msg : PrepareMsg}
    (image : P (msg.image ((readRecord cfg env s msg.iid).map flatten)))
    (run : handleOp cfg env s (.prepare msg) = some t) : t.All P := by
  cases handleOp_branch run with
  | granted _ =>
      refine (h.writeBack cfg env msg.iid ?_).congr
        (addPromiseToSendBuffer_frame cfg env _ _).1 (addPromiseToSendBuffer_frame cfg env _ _).2.1
      rw [flatten_record]
      exact image
  | refused iid => exact h.congr consult_frame.1 consult_frame.2.1

/-- One operation on records that fit leaves records that fit. -/
theorem AcceptorState.All.op {op : AcceptorOp} (h : s.All FlatRecord.Fits) (fits : op.Fits)
    (run : handleOp cfg env s op = some t) : t.All FlatRecord.Fits := by
  cases handleOp_branch run with
  | @granted msg _ =>
      have hfound := h.found cfg env msg.iid fun _ => FlatRecord.Fits.copied
      exact h.prepare (PrepareMsg.image_fits fits hfound) run
  | @applied amsg _ =>
      let r := amsg.record
        (acceptBase (blankRecord cfg s amsg.iid) (readRecord cfg env s amsg.iid))
      have himage : flatten r = amsg.image.copied := by
        simp [r, flatten, AcceptMsg.record, AcceptMsg.image, FlatRecord.copied]
      refine (h.writeBack cfg env amsg.iid (r := r) ?_).congr (by simp [r]) (by simp [r])
      rw [himage]
      exact FlatRecord.Fits.copied fits
  | @opened iid ballot _ =>
      refine (h.writeBack cfg env iid (r := anyvalRecord _ iid ballot) ?_).congr rfl rfl
      rw [(anyval_record_spec _ iid ballot).1]
      exact fits
  | answered _ _ => exact h.congr (by simp) (by simp)
  | refused iid => exact h.congr consult_frame.1 consult_frame.2.1

theorem accept_flatten (amsg : AcceptMsg) (r : AcceptorRecord) :
    flatten (amsg.record r) = amsg.image.copied := by
  simp [flatten, AcceptMsg.record, AcceptMsg.image, FlatRecord.copied]

/-- One operation on records whose sizes are in range leaves such records. -/
theorem AcceptorState.All.sized {op : AcceptorOp} (h : s.All FlatRecord.Sized) (sized : op.Sized)
    (run : handleOp cfg env s op = some t) : t.All FlatRecord.Sized := by
  cases handleOp_branch run with
  | @granted msg _ =>
      have hfound := h.found cfg env msg.iid fun _ => FlatRecord.Sized.copied
      exact h.prepare (PrepareMsg.image_sized hfound) run
  | @applied amsg _ =>
      let r := amsg.record
        (acceptBase (blankRecord cfg s amsg.iid) (readRecord cfg env s amsg.iid))
      refine (h.writeBack cfg env amsg.iid (r := r) ?_).congr (by simp [r]) (by simp [r])
      rw [accept_flatten]
      exact FlatRecord.Sized.copied sized
  | @opened iid ballot _ =>
      refine (h.writeBack cfg env iid (r := anyvalRecord _ iid ballot) ?_).congr rfl rfl
      rw [(anyval_record_spec _ iid ballot).1]
      exact ⟨Int.le_refl 0, show (0 : Int) ≤ 8960 by decide⟩
  | answered _ _ => exact h.congr (by simp) (by simp)
  | refused iid => exact h.congr consult_frame.1 consult_frame.2.1

theorem handleOp_acceptorId {op : AcceptorOp} (run : handleOp cfg env s op = some t) :
    t.acceptorId = s.acceptorId := by
  cases handleOp_branch run with
  | granted _ | applied _ | opened _ => simp [writeBack_frame]
  | answered _ _ | refused _ => simp

theorem acceptorStart_fits (id : Int) : (acceptorStart id).All FlatRecord.Fits := by
  have hfits : FitsInt32 (-1) ∧ FitsInt32 0 := by decide
  refine ⟨fun k => ⟨?_, fun _ => rfl⟩, fun _ _ hf => by cases hf⟩
  simpa [acceptorStart, flatten, FlatRecord.promise, PromiseMsg.fields] using hfits

theorem AcceptorState.Sendable.congr (h : s.Sendable) (acceptorId : t.acceptorId = s.acceptorId)
    (array : t.acceptorArray = s.acceptorArray) (db : t.accDb = s.accDb) : t.Sendable :=
  ⟨⟨acceptorId ▸ h.fits.acceptorId, h.fits.records.congr array db⟩, h.sizes.congr array db⟩

theorem AcceptorState.Sendable.op {op : AcceptorOp} (h : s.Sendable) (fits : op.Fits)
    (sized : op.Sized) (run : handleOp cfg env s op = some t) : t.Sendable :=
  ⟨⟨handleOp_acceptorId run ▸ h.fits.acceptorId, h.fits.records.op fits run⟩,
    h.sizes.sized sized run⟩

theorem AcceptorState.Sendable.message {msg : PaxosMsg} (h : s.Sendable)
    (ops : ∀ op ∈ msg.data.ops, op.Fits ∧ op.Sized)
    (run : handleMessage cfg env s msg = some t) :
    t.Sendable ∧ t.acceptorId = s.acceptorId := by
  have meets : MessageMeets cfg env (fun _ _ => True) s msg :=
    Meets.of_forall (fun _ _ => trivial) _ _
  refine message_invariant (fun u => u.Sendable ∧ u.acceptorId = s.acceptorId) ?_ ?_ ?_ ops
    ⟨h, rfl⟩ meets run
  · exact fun u h => ⟨h.1.congr rfl rfl rfl, h.2⟩
  · exact fun u op v hop h _ move =>
      ⟨h.1.op hop.1 hop.2 move, (handleOp_acceptorId move).trans h.2⟩
  · exact fun u h _ => ⟨h.1.congr (by simp) (by simp) (by simp), by simpa using h.2⟩

theorem acceptorStart_sendable {id : Int} (fits : FitsInt32 id) : (acceptorStart id).Sendable :=
  ⟨⟨fits, acceptorStart_fits id⟩,
    ⟨fun _ => ⟨Int.le_refl 0, show (0 : Int) ≤ 8960 by decide⟩, fun _ _ hf => by cases hf⟩⟩

end Records

/-! ### Datagrams -/

/-- An acceptor that datagrams reach in any order, over buffers with any leftovers. -/
def datagramSystem (cfg : Config) (env : DiskEnv) :
    System AcceptorState (UdpBuffer × Datagram) where
  init := fun s => ∃ id, FitsInt32 id ∧ s = acceptorStart id
  step := fun s packet t => getNextMessage cfg env s packet.1 packet.2 = some t

section Datagrams

variable {cfg : Config} {env : DiskEnv} {s t : AcceptorState} {mem : Bytes} {off : Int}

theorem readPrepare_fits {p : PrepareMsg} (h : readPrepare mem off = some p) : p.Fits := by
  obtain ⟨iid, hiid, h⟩ := Option.bind_eq_some_iff.mp h
  obtain ⟨ballot, hballot, rfl⟩ := Option.map_eq_some_iff.mp h
  simpa [PrepareMsg.Fits, PrepareMsg.fields] using ⟨intAt_fits hiid, intAt_fits hballot⟩

/-- The largest value lies within the receive buffer. -/
theorem readAccept_fits {amsg : AcceptMsg} (length : (mem.length : Int) = maxUdpMsgSize)
    (h : readAccept mem sizeofPaxosMsg = some amsg) : amsg.image.Fits := by
  obtain ⟨iid, hiid, h⟩ := Option.bind_eq_some_iff.mp h
  obtain ⟨ballot, hballot, h⟩ := Option.bind_eq_some_iff.mp h
  obtain ⟨valueSize, hsize, h⟩ := Option.bind_eq_some_iff.mp h
  obtain ⟨proposerId, _, rfl⟩ := Option.map_eq_some_iff.mp h
  constructor
  · simpa [AcceptMsg.image, FlatRecord.promise, PromiseMsg.fields] using
      ⟨intAt_fits hiid, intAt_fits hballot, intAt_fits hsize⟩
  · intro hle
    have hoff : (sizeofPaxosMsg + sizeofAcceptMsg).toNat = 24 := rfl
    simp only [AcceptMsg.image, paxosMaxValueSize, maxUdpMsgSize] at hle length ⊢
    rw [bytesAt, hoff, List.length_take, List.length_drop]
    omega

theorem anyval_fits {iid ballot : Int} (hiid : FitsInt32 iid) (hballot : FitsInt32 ballot) :
    (anyvalImage iid ballot).Fits := by
  have hnone : FitsInt32 (-1) ∧ FitsInt32 0 := by decide
  refine ⟨?_, fun _ => rfl⟩
  simpa [anyvalImage, FlatRecord.promise, PromiseMsg.fields] using ⟨hiid, hballot, hnone⟩

/-- The casts of `handle_message` find integers in every field. -/
theorem readRequest_fits {type : Int} {data : PaxosData}
    (length : (mem.length : Int) = maxUdpMsgSize)
    (h : readRequest mem type = some (some data)) : ∀ op ∈ data.ops, op.Fits := by
  simp only [readRequest] at h
  split at h
  · obtain ⟨b, hb, heq⟩ := Option.map_eq_some_iff.mp h
    obtain rfl := Option.some.inj heq
    obtain ⟨count, _, hb⟩ := Option.bind_eq_some_iff.mp hb
    obtain ⟨entries, hentries, rfl⟩ := Option.map_eq_some_iff.mp hb
    intro op hop
    obtain ⟨p, hp, rfl⟩ := List.mem_map.mp hop
    obtain ⟨_, hread⟩ := readAll_mem hentries p (List.mem_of_mem_take hp)
    exact readPrepare_fits hread
  · split at h
    · obtain ⟨amsg, hamsg, heq⟩ := Option.map_eq_some_iff.mp h
      obtain rfl := Option.some.inj heq
      intro op hop
      obtain rfl := List.mem_singleton.mp hop
      exact readAccept_fits length hamsg
    · split at h
      · obtain ⟨m, _, heq⟩ := Option.map_eq_some_iff.mp h
        obtain rfl := Option.some.inj heq
        intro op hop
        obtain ⟨i, _, rfl⟩ := List.mem_map.mp hop
        trivial
      · split at h
        · obtain ⟨m, hm, heq⟩ := Option.map_eq_some_iff.mp h
          obtain rfl := Option.some.inj heq
          obtain ⟨ballot, hballot, hm⟩ := Option.bind_eq_some_iff.mp hm
          obtain ⟨count, _, hm⟩ := Option.bind_eq_some_iff.mp hm
          obtain ⟨ids, hids, rfl⟩ := Option.map_eq_some_iff.mp hm
          intro op hop
          obtain ⟨i, hi, rfl⟩ := List.mem_map.mp hop
          obtain ⟨_, hread⟩ := readAll_mem hids i (List.mem_of_mem_take hi)
          exact anyval_fits (intAt_fits hread) (intAt_fits hballot)
        · cases h

/-- What is stored fits, whatever the datagrams were. -/
theorem datagrams_fit (reached : Reachable (datagramSystem cfg env) anyStep s) : s.Fits := by
  refine Reachable.invariant ?_ ?_ reached
  · intro s ⟨id, fits, hs⟩
    rw [hs]
    exact ⟨fits, acceptorStart_fits id⟩
  · intro s ⟨buf, d⟩ t _ inv _ move
    obtain ⟨size, _, move⟩ := Option.bind_eq_some_iff.mp move
    split at move
    · exact Option.some.inj move ▸ inv
    · obtain ⟨type, _, move⟩ := Option.bind_eq_some_iff.mp move
      obtain ⟨request, hrequest, move⟩ := Option.bind_eq_some_iff.mp move
      cases request with
      | none => exact Option.some.inj move ▸ inv
      | some data =>
          have ops := readRequest_fits (receive_length buf d) hrequest
          have meets : MessageMeets cfg env (fun _ _ => True) s { size := size, data := data } :=
            Meets.of_forall (fun _ _ => trivial) _ _
          refine message_invariant AcceptorState.Fits ?_ ?_ ?_ ops inv meets move
          · exact fun s inv => ⟨inv.acceptorId, inv.records.congr rfl rfl⟩
          · intro s op t fits inv _ run
            exact ⟨handleOp_acceptorId run ▸ inv.acceptorId, inv.records.op fits run⟩
          · intro s inv _
            exact ⟨by simpa using inv.acceptorId, inv.records.congr (by simp) (by simp)⟩

end Datagrams

/-! ### Prepare batches -/

section Grants

variable (cfg : Config) (env : DiskEnv) (s : AcceptorState)

instance (msg : PrepareMsg) : Decidable (Refuses cfg env s (.prepare msg)) :=
  inferInstanceAs (Decidable (_ ∨ _))

/-- The promise that an acceptor grants for a prepare. -/
def promiseFor (msg : PrepareMsg) : Option PromiseMsg :=
  if Refuses cfg env s (.prepare msg) then none
  else some (msg.image ((readRecord cfg env s msg.iid).map flatten)).promise

/-- The promises granted for prepares that are handled one after the other. -/
def promisesGranted : AcceptorState → List PrepareMsg → List PromiseMsg
  | _, [] => []
  | s, msg :: msgs =>
      (promiseFor cfg env s msg).toList ++ promisesGranted (handlePrepare cfg env s msg) msgs

/-- The promises that a prepare batch is granted. -/
def grantedTo (bmsg : PrepareBatchMsg) : List PromiseMsg :=
  promisesGranted cfg env (resetPromiseBatch s) (bmsg.data.take bmsg.count.toNat)

end Grants

section Batches

variable {cfg : Config} {env : DiskEnv} {s : AcceptorState}

theorem handlePrepare_out (cfg : Config) (env : DiskEnv) (s : AcceptorState) (msg : PrepareMsg) :
    (handlePrepare cfg env s msg).out =
      (promiseFor cfg env s msg).toList.foldl Outbox.addPromise s.out := by
  simp only [promiseFor]
  split
  · next refused =>
      have hstate : handlePrepare cfg env s msg = s.consult cfg msg.iid :=
        Option.some.inj (handleOp_refused refused)
      rw [hstate]
      exact consult_out cfg s msg.iid
  · next acts =>
      obtain ⟨granted, high⟩ := not_or.mp acts
      rw [handlePrepare_granted (fun newer missing => by
        by_contra low
        exact high ⟨newer, missing, low⟩) (not_not.mp granted)]
      dsimp only
      rw [addPromiseToSendBuffer_out, writeBack_out, promiseOf_eq, flatten_record]
      rfl

theorem prepares_out (cfg : Config) (env : DiskEnv) (s : AcceptorState) (msgs : List PrepareMsg) :
    (msgs.foldl (handlePrepare cfg env) s).out =
      (promisesGranted cfg env s msgs).foldl Outbox.addPromise s.out := by
  induction msgs generalizing s with
  | nil => rfl
  | cons msg msgs ih =>
      rw [List.foldl_cons, ih, handlePrepare_out, promisesGranted, List.foldl_append]

/-- A prepare batch does to the datagrams what its granted promises do. -/
theorem handlePrepareBatch_out (cfg : Config) (env : DiskEnv) (s : AcceptorState)
    (bmsg : PrepareBatchMsg) :
    (handlePrepareBatch cfg env s bmsg).out = s.out.sendBatch (grantedTo cfg env s bmsg) := by
  have hloop : ((bmsg.data.take bmsg.count.toNat).foldl (handlePrepare cfg env)
      (resetPromiseBatch s)).out = (grantedTo cfg env s bmsg).foldl Outbox.addPromise s.out.reset :=
    prepares_out cfg env (resetPromiseBatch s) (bmsg.data.take bmsg.count.toNat)
  have hcount : ∀ t : AcceptorState, t.promiseBatch.count = t.out.promiseBatch.count :=
    fun _ => rfl
  simp only [handlePrepareBatch, Outbox.sendBatch]
  rw [hcount, hloop]
  split
  · rw [flushSendBuffer_out, diskForceSyncrony_out, hloop]
  · exact hloop

/-- Records that fit and whose sizes are in range stay so, and make promises that can be sent. -/
theorem promisesGranted_small (all : s.All fun f => f.Fits ∧ f.Sized) {msgs : List PrepareMsg}
    (fits : ∀ p ∈ msgs, p.Fits) : ∀ p ∈ promisesGranted cfg env s msgs, p.Small := by
  induction msgs generalizing s with
  | nil => exact fun _ hp => by cases hp
  | cons msg msgs ih =>
      have hmsg := fits msg List.mem_cons_self
      have hfound := all.found cfg env msg.iid fun f h => ⟨h.1.copied, h.2.copied⟩
      have himage : (msg.image ((readRecord cfg env s msg.iid).map flatten)).Fits ∧
          (msg.image ((readRecord cfg env s msg.iid).map flatten)).Sized :=
        ⟨PrepareMsg.image_fits hmsg fun f hf => (hfound f hf).1,
          PrepareMsg.image_sized fun f hf => (hfound f hf).2⟩
      have hnext : (handlePrepare cfg env s msg).All fun f => f.Fits ∧ f.Sized :=
        all.prepare himage rfl
      intro p hp
      cases List.mem_append.mp hp with
      | inl first =>
          simp only [promiseFor] at first
          split at first
          · cases first
          · rw [List.mem_singleton.mp first]
            exact FlatRecord.promise_small himage.1 himage.2
      | inr rest => exact ih hnext (fun q hq => fits q (List.mem_cons_of_mem msg hq)) p rest

/-! ### The round trip -/

/-- The datagram carries this batch, and every receiver reads it back from its buffer. -/
structure Carries (acceptorId : Int) (bytes : Bytes) (batch : PromiseBatchMsg) : Prop where
  length_le : (bytes.length : Int) ≤ maxUdpMsgSize
  size_eq : intAt bytes 0 = some (bytes.length - sizeofPaxosMsg)
  type_eq : intAt bytes 4 = some paxosPromise
  acceptorId_eq : batch.acceptorId = acceptorId
  count_pos : 1 ≤ batch.count
  decodes : ∀ (buf : UdpBuffer) (d : Datagram), d.bytes = bytes →
    readPromiseBatch (buf.receive d) sizeofPaxosMsg = some batch

theorem PromiseBatchMsg.Sendable.encodes {acceptorId : Int} {batch : PromiseBatchMsg}
    (h : batch.Sendable acceptorId) {d : Datagram} (bytes : d.bytes = (batchPacket batch).bytes) :
    d.Encodes (batchPacket batch) where
  fits := h.fits
  size_eq := by
    rw [bytes, batchPacket_length]
    simp only [batchPacket]
    omega
  bytes := bytes ▸ List.prefix_refl _

theorem PromiseBatchMsg.Sendable.carries {acceptorId : Int} {batch : PromiseBatchMsg}
    (h : batch.Sendable acceptorId) : Carries acceptorId (batchPacket batch).bytes batch := by
  have hlen := batchPacket_length batch
  have hfits : ∀ x ∈ [(batch.bytes.length : Int), paxosPromise], FitsInt32 x := by
    have hroom := h.room
    simp only [sizeofPaxosMsg, maxUdpMsgSize] at hlen hroom
    have hsize : FitsInt32 batch.bytes.length := ⟨by omega, by omega⟩
    have htype : FitsInt32 paxosPromise := by decide
    simpa using ⟨hsize, htype⟩
  have hheader : Holds (batchPacket batch).bytes 0
      (ints [(batch.bytes.length : Int), paxosPromise]) :=
    .of_isPrefix (List.prefix_append _ _)
  refine
    { length_le := h.room
      size_eq := ?_
      type_eq := hheader.intAt hfits 1 rfl
      acceptorId_eq := h.acceptorId_eq
      count_pos := ?_
      decodes := ?_ }
  · have hsize := hheader.intAt hfits 0 rfl
    have hpayload : ((batchPacket batch).bytes.length : Int) - sizeofPaxosMsg =
        batch.bytes.length := by omega
    rw [hpayload]
    exact hsize
  · rw [h.fits.count_eq]
    have hpos := List.length_pos_iff.mpr h.nonempty
    omega
  · intro buf d bytes
    exact readPromiseBatch_of_holds h.fits ((h.encodes bytes).header buf).2.2

/-- `send_buffer` of an acceptor, whatever it is left with. -/
def AcceptorState.sendBuffer (s : AcceptorState) (mem : UdpBuffer) : SendBuffer where
  acceptorId := s.acceptorId
  bytes := mem.bytes
  size := s.sendBufferSize
  sent := []

/-- The batches that go out for a prepare batch, as packets, as bytes and as decoded. -/
structure RoundTrips (cfg : Config) (env : DiskEnv) (s : AcceptorState) (mem : UdpBuffer)
    (bmsg : PrepareBatchMsg) (batches : List PromiseBatchMsg) : Prop where
  sent : (handlePrepareBatch cfg env s bmsg).sent =
    (batches.map batchPacket).reverse ++ s.sent
  bytes : ((s.sendBuffer mem).sendBatch (grantedTo cfg env s bmsg)).sent =
    (batches.map fun batch => (batchPacket batch).bytes).reverse
  carried : ∀ batch ∈ batches, Carries s.acceptorId (batchPacket batch).bytes batch
  decoded : batches.flatMap PromiseBatchMsg.data = grantedTo cfg env s bmsg

/-- The packets sent for a prepare batch decode to the promises granted, each once and in order. -/
theorem promises_roundTrip (reached : Reachable (datagramSystem cfg env) anyStep s)
    (sizes : s.All FlatRecord.Sized) (mem : UdpBuffer) {bmsg : PrepareBatchMsg}
    (fits : ∀ p ∈ bmsg.data, p.Fits) : ∃ batches, RoundTrips cfg env s mem bmsg batches := by
  obtain ⟨id, all⟩ := datagrams_fit reached
  have hreset : (resetPromiseBatch s).All fun f => f.Fits ∧ f.Sized :=
    (all.and sizes).congr rfl rfl
  have hsmall : ∀ p ∈ grantedTo cfg env s bmsg, p.Small :=
    promisesGranted_small hreset fun p hp => fits p (List.mem_of_mem_take hp)
  obtain ⟨batches, hsent, hbytes, hsendable, hdecoded⟩ :=
    sendBatch_spec (o := s.out) (b := s.sendBuffer mem) rfl id mem.length_eq hsmall
  rw [← handlePrepareBatch_out] at hsent
  refine ⟨batches, hsent, ?_, fun batch hbatch => (hsendable batch hbatch).carries, hdecoded⟩
  rw [hbytes]
  exact List.append_nil _

def zeroBuffer : UdpBuffer where
  bytes := List.replicate 9000 0
  length_eq := by rw [List.length_replicate]; rfl

/-- Packets of well-sized values, handed over as datagrams. -/
theorem reachable_packets {t : AcceptorState} {msgs : List PaxosMsg}
    (encoded : ∀ msg ∈ msgs, (∃ d : Datagram, d.Encodes msg) ∧
      ∀ op ∈ msg.data.ops, op.Fits ∧ op.Sized)
    (reached : Reachable (datagramSystem cfg env) anyStep s) (sendable : s.Sendable)
    (run : msgs.foldlM (handleMessage cfg env) s = some t) :
    Reachable (datagramSystem cfg env) anyStep t ∧ t.Sendable := by
  induction msgs generalizing s with
  | nil =>
      obtain rfl := Option.some.inj run
      exact ⟨reached, sendable⟩
  | cons msg msgs ih =>
      rw [List.foldlM_cons] at run
      obtain ⟨u, hu, rest⟩ := Option.bind_eq_some_iff.mp run
      obtain ⟨⟨d, hd⟩, hops⟩ := encoded msg List.mem_cons_self
      have move : getNextMessage cfg env s zeroBuffer d = some u :=
        (getNextMessage_encoded cfg env s zeroBuffer hd).trans hu
      exact ih (fun m hm => encoded m (List.mem_cons_of_mem msg hm))
        (.step (a := (zeroBuffer, d)) reached trivial move) (sendable.message hops hu).1 rest

/-- An accept whose value leaves no room for a second one in a packet. -/
def longAccept (iid : Int) (value : Bytes) : AcceptMsg where
  iid := iid
  ballot := 20
  valueSize := 5000
  proposerId := 1
  value := value

theorem longAccept_encoded {iid : Int} (fits : FitsInt32 iid) {value : Bytes}
    (length : value.length = 5000) :
    (∃ d : Datagram, d.Encodes (acceptPacket (longAccept iid value))) ∧
      ∀ op ∈ (acceptPacket (longAccept iid value)).data.ops, op.Fits ∧ op.Sized := by
  have hints : FitsInt32 20 ∧ FitsInt32 5000 ∧ FitsInt32 1 := by decide
  have hlength : (acceptPacket (longAccept iid value)).bytes.length = 5024 := by
    simp [PaxosMsg.bytes, acceptPacket, PaxosData.bytes, AcceptMsg.bytes, AcceptMsg.fields,
      longAccept, ints_length, length]
  refine ⟨⟨⟨(acceptPacket (longAccept iid value)).bytes, ?_⟩, ⟨?_, ?_⟩, ?_,
    List.prefix_refl _⟩, ?_⟩
  · rw [hlength]
    decide
  · simpa [longAccept, AcceptMsg.fields] using ⟨fits, hints⟩
  · simp [longAccept, length]
  · rw [hlength]
    rfl
  · intro op hop
    obtain rfl := List.mem_singleton.mp hop
    refine ⟨⟨?_, fun _ => length⟩, ?_⟩
    · simpa [longAccept, AcceptMsg.image, FlatRecord.promise, PromiseMsg.fields] using
        ⟨fits, hints.1, hints.2.1⟩
    · exact ⟨show (0 : Int) ≤ 5000 by decide, show (5000 : Int) ≤ 8960 by decide⟩

/-- Two instances are prepared and get values. -/
def longValues : List PaxosMsg :=
  [preparePacket [⟨0, 20⟩, ⟨1, 20⟩], acceptPacket (longAccept 0 (List.replicate 5000 7)),
    acceptPacket (longAccept 1 (List.replicate 5000 8))]

/-- The same instances at a higher ballot, the first of them twice. -/
def repeatedPrepares : PrepareBatchMsg where
  count := 3
  data := [⟨0, 30⟩, ⟨1, 30⟩, ⟨0, 30⟩]

/-- Both values are reported once, in two packets. -/
theorem promises_roundTrip_split :
    ∃ s, longValues.foldlM (handleMessage .shipped quietDisk) (acceptorStart 0) = some s ∧
      (grantedTo .shipped quietDisk s repeatedPrepares).map
          (fun p => (p.iid, p.valueBallot, p.valueSize)) = [(0, 20, 5000), (1, 20, 5000)] ∧
      ∃ batches, RoundTrips .shipped quietDisk s zeroBuffer repeatedPrepares batches ∧
        batches.length = 2 := by
  have hrun : ∃ s, longValues.foldlM (handleMessage .shipped quietDisk) (acceptorStart 0) =
        some s ∧
      (grantedTo .shipped quietDisk s repeatedPrepares).map
          (fun p => (p.iid, p.valueBallot, p.valueSize)) = [(0, 20, 5000), (1, 20, 5000)] ∧
      (handlePrepareBatch .shipped quietDisk s repeatedPrepares).sent.length =
        2 + s.sent.length := by
    decide +kernel
  obtain ⟨s, run, granted, split⟩ := hrun
  have hencoded : ∀ msg ∈ longValues, (∃ d : Datagram, d.Encodes msg) ∧
      ∀ op ∈ msg.data.ops, op.Fits ∧ op.Sized := by
    have hprepare : Datagram.Encodes ⟨(preparePacket [⟨0, 20⟩, ⟨1, 20⟩]).bytes, by decide⟩
        (preparePacket [⟨0, 20⟩, ⟨1, 20⟩]) :=
      ⟨⟨by decide, rfl, by simp only [PrepareMsg.Fits]; decide⟩, by decide, List.prefix_refl _⟩
    simp only [longValues, List.forall_mem_cons, List.not_mem_nil, false_imp_iff, implies_true,
      and_true]
    refine ⟨⟨⟨_, hprepare⟩, ?_⟩, longAccept_encoded (by decide) List.length_replicate,
      longAccept_encoded (by decide) List.length_replicate⟩
    simp [preparePacket, PaxosData.ops, AcceptorOp.Fits, AcceptorOp.Sized, PrepareMsg.Fits,
      PrepareMsg.fields]
    decide
  obtain ⟨hreach, hsendable⟩ := reachable_packets hencoded (.init ⟨0, by decide, rfl⟩)
    (acceptorStart_sendable (by decide)) run
  have hfits : ∀ p ∈ repeatedPrepares.data, p.Fits := by
    simp only [PrepareMsg.Fits]
    decide
  obtain ⟨batches, htrips⟩ := promises_roundTrip hreach hsendable.sizes zeroBuffer hfits
  refine ⟨s, run, granted, batches, htrips, ?_⟩
  have hlength := congrArg List.length htrips.sent
  rw [split, List.length_append, List.length_reverse, List.length_map] at hlength
  omega

end Batches

end LibFastPaxos
