import LibFastPaxos.LeaderPhase2
import LibFastPaxos.Wire

/-!
`leader_handle_proposer_msg` on the bytes of its buffer. A promise packet must be as long
as its header and no more is checked: neither the size field, nor the counts, nor the
acceptor id that indexes the promises of a record.
-/

namespace LibFastPaxos

open Memory

/-- The tests of `handle_promise` that come before it indexes the promises. -/
structure ProposerRecord.Expects (r : ProposerRecord) (prom : PromiseMsg) : Prop where
  iid_eq : r.iid = prom.iid
  pending : r.status = .p1Pending
  ballot_eq : r.ballot = prom.ballot

instance (r : ProposerRecord) (prom : PromiseMsg) : Decidable (r.Expects prom) :=
  decidable_of_iff (r.iid = prom.iid ∧ r.status = .p1Pending ∧ r.ballot = prom.ballot)
    ⟨fun h => ⟨h.1, h.2.1, h.2.2⟩, fun h => ⟨h.1, h.2, h.3⟩⟩

section Receive

variable (cfg : Config)

/-- `none` is an index outside the promises of the record. -/
def handlePromiseAt (acceptorId : Int) (s : LeaderState) (prom : PromiseMsg) :
    Option LeaderState :=
  if (s.slot cfg prom.iid).Expects prom ∧ ¬ cfg.IsAcceptor acceptorId then none
  else some (handlePromise cfg s prom acceptorId).1

def leaderHandleProposerMsg (s : LeaderState) (buf : UdpBuffer) (d : Datagram) :
    Option LeaderState :=
  let mem := buf.receive d
  (intAt mem 4).bind fun type =>
  if type ≠ paxosPromise then some s
  else if (d.bytes.length : Int) < sizeofPaxosMsg + sizeofPromiseBatchMsg then some s
  else
    (readPromiseBatch mem sizeofPaxosMsg).bind fun batch =>
    ((batch.data.take batch.count.toNat).foldlM (handlePromiseAt cfg batch.acceptorId) s).bind
      fun t =>
      if batch.Endless then none
      else some (executePhase2 cfg t (firstIid batch) (lastIid batch))

/-- The leader takes promises only. -/
def leaderHandles (s : LeaderState) : PaxosData → LeaderState
  | .promise batch => leaderHandlePromiseMsg cfg s batch
  | .prepare _ | .accept _ | .lsync _ | .learn _ | .anyval _ => s

end Receive

/-- The send buffer aside, nothing has changed. -/
structure LeaderState.Untouched (s t : LeaderState) : Prop where
  proposerArray : t.proposerArray = s.proposerArray
  p1info : t.p1info = s.p1info
  currentIid : t.currentIid = s.currentIid
  p2CurrentIid : t.p2CurrentIid = s.p2CurrentIid
  sent : t.sent = s.sent

/-- A promise that is not stored. -/
def RefusesPromise (cfg : Config) (s : LeaderState) (acceptorId : Int) (prom : PromiseMsg) :
    Prop :=
  (s.slot cfg prom.iid).Expects prom →
    cfg.IsAcceptor acceptorId ∧ ((s.slot cfg prom.iid).promises acceptorId.toNat).iid ≠ -1

/-- The datagram is stopped by its type, by its length, or by every handler it reaches. -/
inductive LeaderStops (cfg : Config) (s : LeaderState) (buf : UdpBuffer) (d : Datagram) :
    Prop where
  | type {type : Int} (read : intAt (buf.receive d) 4 = some type)
      (ignored : type ≠ paxosPromise)
  | short (small : (d.bytes.length : Int) < sizeofPaxosMsg + sizeofPromiseBatchMsg)
  | refused {batch : PromiseBatchMsg}
      (read : readPromiseBatch (buf.receive d) sizeofPaxosMsg = some batch)
      (refused : ∀ prom ∈ batch.data.take batch.count.toNat,
        RefusesPromise cfg s batch.acceptorId prom)
      (idle : ∀ i ∈ idsFromTo (firstIid batch) (lastIid batch),
        (s.slot cfg i).status ≠ .p1Ready)
      (ends : ¬ batch.Endless)

/-- The bytes are those of the message, and its acceptor id is an index. -/
structure LeaderEncodes (cfg : Config) (d : Datagram) (msg : PaxosMsg) : Prop extends
    d.Encodes msg where
  index : ∀ batch, msg.data = .promise batch → cfg.IsAcceptor batch.acceptorId

/-- A well-formed datagram is handled as the message it encodes, any other changes nothing. -/
structure LeaderReceives (cfg : Config) (s : LeaderState) (buf : UdpBuffer) (d : Datagram) :
    Prop where
  encoded : ∀ msg, LeaderEncodes cfg d msg →
    leaderHandleProposerMsg cfg s buf d = some (leaderHandles cfg s msg.data)
  malformed : (∀ msg, ¬ LeaderEncodes cfg d msg) →
    ∃ t, leaderHandleProposerMsg cfg s buf d = some t ∧ s.Untouched t

section Promises

variable {cfg : Config} {s t : LeaderState} {acceptorId : Int} {prom : PromiseMsg}

theorem handlePromiseAt_acceptor (index : cfg.IsAcceptor acceptorId) :
    handlePromiseAt cfg acceptorId s prom = some (handlePromise cfg s prom acceptorId).1 :=
  if_neg fun h => h.2 index

theorem handlePromiseAt_refused (refused : RefusesPromise cfg s acceptorId prom) :
    handlePromiseAt cfg acceptorId s prom = some s := by
  have hindex : ¬ ((s.slot cfg prom.iid).Expects prom ∧ ¬ cfg.IsAcceptor acceptorId) :=
    fun h => h.2 (refused h.1).1
  have hignored : ¬ (s.slot cfg prom.iid).Awaits prom acceptorId := by
    intro h
    exact (refused ⟨h.iid_eq, h.pending, h.ballot_eq⟩).2 h.missing
  rw [handlePromiseAt, if_neg hindex]
  have outcome := handlePromise_outcome cfg s prom acceptorId
  generalize handlePromise cfg s prom acceptorId = res at outcome ⊢
  cases outcome with
  | ignored _ => rfl
  | stored awaited _ => exact absurd awaited hignored
  | reached awaited _ _ => exact absurd awaited hignored

/-- A promise that is awaited adds one to the count of its slot. -/
theorem handlePromise_array (cfg : Config) (s : LeaderState) (prom : PromiseMsg)
    (acceptorId : Int) :
    ((handlePromise cfg s prom acceptorId).1 = s ∧
        ¬ (s.slot cfg prom.iid).Awaits prom acceptorId) ∨
      ∃ r : ProposerRecord, r.promiseCount = (s.slot cfg prom.iid).promiseCount + 1 ∧
        (handlePromise cfg s prom acceptorId).1.proposerArray =
          (s.setSlot cfg prom.iid r).proposerArray := by
  have outcome := handlePromise_outcome cfg s prom acceptorId
  generalize handlePromise cfg s prom acceptorId = res at outcome ⊢
  cases outcome with
  | ignored h => exact .inl ⟨rfl, h⟩
  | stored _ _ => exact .inr ⟨_, rfl, rfl⟩
  | reached _ _ _ => exact .inr ⟨_, by rfl, rfl⟩

theorem handlePromiseAt_count {u : LeaderState}
    (run : handlePromiseAt cfg acceptorId s prom = some u) (k : Nat) :
    (s.proposerArray k).promiseCount ≤ (u.proposerArray k).promiseCount := by
  simp only [handlePromiseAt] at run
  split at run
  · cases run
  · obtain rfl := Option.some.inj run
    cases handlePromise_array cfg s prom acceptorId with
    | inl h => rw [h.1]
    | inr h =>
        obtain ⟨r, hcount, harray⟩ := h
        rw [harray, proposerArray_setSlot]
        split
        · next hk =>
            rw [hcount, hk]
            exact Int.le_of_lt (Int.lt_succ _)
        · exact Int.le_refl _

/-- A promise that leaves its slot's count alone was refused. -/
theorem handlePromiseAt_idle {u : LeaderState}
    (run : handlePromiseAt cfg acceptorId s prom = some u)
    (idle : ∀ k, (u.proposerArray k).promiseCount ≤ (s.proposerArray k).promiseCount) :
    RefusesPromise cfg s acceptorId prom := by
  intro expects
  simp only [handlePromiseAt] at run
  split at run
  · cases run
  · next hindex =>
      have index : cfg.IsAcceptor acceptorId := by
        by_contra outside
        exact hindex ⟨expects, outside⟩
      refine ⟨index, fun missing => ?_⟩
      obtain rfl := Option.some.inj run
      cases handlePromise_array cfg s prom acceptorId with
      | inl h => exact h.2 ⟨expects.iid_eq, expects.pending, expects.ballot_eq, missing⟩
      | inr h =>
          obtain ⟨r, hcount, harray⟩ := h
          have hk := idle (cfg.proposerArraySize.index prom.iid)
          rw [harray, proposerArray_setSlot, if_pos rfl, hcount] at hk
          have hslot : (s.slot cfg prom.iid).promiseCount =
            (s.proposerArray (cfg.proposerArraySize.index prom.iid)).promiseCount := rfl
          omega

theorem promises_count {proms : List PromiseMsg} {u : LeaderState}
    (run : proms.foldlM (handlePromiseAt cfg acceptorId) s = some u) (k : Nat) :
    (s.proposerArray k).promiseCount ≤ (u.proposerArray k).promiseCount := by
  induction proms generalizing s with
  | nil =>
      obtain rfl := Option.some.inj run
      exact Int.le_refl _
  | cons prom proms ih =>
      rw [List.foldlM_cons] at run
      obtain ⟨v, hv, rest⟩ := Option.bind_eq_some_iff.mp run
      exact (handlePromiseAt_count hv k).trans (ih rest)

theorem promises_refused {proms : List PromiseMsg}
    (refused : ∀ prom ∈ proms, RefusesPromise cfg s acceptorId prom) :
    proms.foldlM (handlePromiseAt cfg acceptorId) s = some s := by
  induction proms with
  | nil => rfl
  | cons prom proms ih =>
      rw [List.foldlM_cons, handlePromiseAt_refused (refused prom List.mem_cons_self)]
      exact ih fun p hp => refused p (List.mem_cons_of_mem prom hp)

/-- Promises that leave every count alone were all refused. -/
theorem promises_idle {proms : List PromiseMsg} {u : LeaderState}
    (run : proms.foldlM (handlePromiseAt cfg acceptorId) s = some u)
    (idle : ∀ k, (u.proposerArray k).promiseCount ≤ (s.proposerArray k).promiseCount) :
    ∀ prom ∈ proms, RefusesPromise cfg s acceptorId prom := by
  induction proms with
  | nil => exact fun _ h => by cases h
  | cons prom proms ih =>
      rw [List.foldlM_cons] at run
      obtain ⟨v, hv, rest⟩ := Option.bind_eq_some_iff.mp run
      have hrefused := handlePromiseAt_idle hv fun k => (promises_count rest k).trans (idle k)
      rw [handlePromiseAt_refused hrefused] at hv
      obtain rfl := Option.some.inj hv
      intro p hp
      cases List.mem_cons.mp hp with
      | inl heq => exact heq ▸ hrefused
      | inr hold => exact ih rest p hold

theorem promises_stored (index : cfg.IsAcceptor acceptorId) (s : LeaderState)
    (proms : List PromiseMsg) :
    proms.foldlM (handlePromiseAt cfg acceptorId) s =
      some (proms.foldl (fun s prom => (handlePromise cfg s prom acceptorId).1) s) := by
  induction proms generalizing s with
  | nil => rfl
  | cons prom proms ih =>
      rw [List.foldlM_cons, handlePromiseAt_acceptor index, List.foldl_cons]
      exact ih _

/-! ### Phase 2 over idle slots -/

theorem phase2_idle {ids : List Int} (idle : ∀ i ∈ ids, (s.slot cfg i).status ≠ .p1Ready) :
    ids.foldl (phase2Instance cfg) s = s := by
  induction ids with
  | nil => rfl
  | cons i ids ih =>
      rw [List.foldl_cons, phase2Instance_of_not_ready (idle i List.mem_cons_self)]
      exact ih fun j hj => idle j (List.mem_cons_of_mem i hj)

theorem executePhase2_idle {first last : Int}
    (idle : ∀ i ∈ idsFromTo first last, (s.slot cfg i).status ≠ .p1Ready) :
    executePhase2 cfg s first last = s.initAnymsg := by
  have hloop := phase2_idle (s := s.initAnymsg) idle
  simp only [executePhase2, hloop]
  exact if_neg (Int.lt_irrefl 0)

theorem phase2Instance_promiseCount (cfg : Config) (s : LeaderState) (i : Int) (k : Nat) :
    ((phase2Instance cfg s i).proposerArray k).promiseCount =
      (s.proposerArray k).promiseCount := by
  by_cases hready : (s.slot cfg i).status = .p1Ready
  · rw [phase2Instance_array hready, finish, proposerArray_setSlot]
    split
    · next hk => rw [hk]; rfl
    · rfl
  · rw [phase2Instance_of_not_ready hready]

theorem executePhase2_promiseCount (cfg : Config) (s : LeaderState) (first last : Int) (k : Nat) :
    ((executePhase2 cfg s first last).proposerArray k).promiseCount =
      (s.proposerArray k).promiseCount := by
  refine executePhase2_keeps
    (fun u => (u.proposerArray k).promiseCount = (s.proposerArray k).promiseCount) ?_ ?_ ?_ rfl
    first last
  · intro u i hu
    rw [phase2Instance_promiseCount]
    exact hu
  · exact fun u hu => hu
  · exact fun u hu => hu

/-- Phase 2 that leaves every slot alone found none ready. -/
theorem executePhase2_same {first last : Int}
    (same : (executePhase2 cfg s first last).proposerArray = s.proposerArray) :
    ∀ i ∈ idsFromTo first last, (s.slot cfg i).status ≠ .p1Ready := by
  intro i hi ready
  have hslot := (executePhase2_slot cfg s first last (cfg.proposerArraySize.index i)).2
  have hready : (s.proposerArray (cfg.proposerArraySize.index i)).status = .p1Ready := ready
  rw [same, if_pos ⟨hready, i, hi, rfl⟩, hready] at hslot
  cases hslot

end Promises

/-! ### Datagrams -/

section Datagrams

variable {cfg : Config} {s : LeaderState} {buf : UdpBuffer} {d : Datagram}

theorem leaderStops_iff {type : Int} (htype : intAt (buf.receive d) 4 = some type) :
    LeaderStops cfg s buf d ↔
      type ≠ paxosPromise ∨
        (d.bytes.length : Int) < sizeofPaxosMsg + sizeofPromiseBatchMsg ∨
        ∃ batch, readPromiseBatch (buf.receive d) sizeofPaxosMsg = some batch ∧
          (∀ prom ∈ batch.data.take batch.count.toNat,
            RefusesPromise cfg s batch.acceptorId prom) ∧
          (∀ i ∈ idsFromTo (firstIid batch) (lastIid batch), (s.slot cfg i).status ≠ .p1Ready) ∧
          ¬ batch.Endless := by
  constructor
  · intro h
    cases h with
    | type read ignored =>
        obtain rfl := Option.some.inj (read.symm.trans htype)
        exact .inl ignored
    | short small => exact .inr (.inl small)
    | refused read refused idle ends => exact .inr (.inr ⟨_, read, refused, idle, ends⟩)
  · rintro (ignored | small | ⟨batch, read, refused, idle, ends⟩)
    · exact .type htype ignored
    · exact .short small
    · exact .refused read refused idle ends

/-- The promises of a batch are refused and no slot is ready exactly when nothing changes. -/
theorem storeAndExecute_untouched_iff (cfg : Config) (s : LeaderState) (acceptorId : Int)
    (proms : List PromiseMsg) (first last : Int) :
    (∃ u, proms.foldlM (handlePromiseAt cfg acceptorId) s = some u ∧
        s.Untouched (executePhase2 cfg u first last)) ↔
      (∀ prom ∈ proms, RefusesPromise cfg s acceptorId prom) ∧
        ∀ i ∈ idsFromTo first last, (s.slot cfg i).status ≠ .p1Ready := by
  constructor
  · intro ⟨u, run, untouched⟩
    have hidle : ∀ k, (u.proposerArray k).promiseCount ≤ (s.proposerArray k).promiseCount := by
      intro k
      rw [← executePhase2_promiseCount cfg u first last k, untouched.proposerArray]
    have hrefused := promises_idle run hidle
    rw [promises_refused hrefused] at run
    obtain rfl := Option.some.inj run
    exact ⟨hrefused, executePhase2_same untouched.proposerArray⟩
  · intro ⟨refused, idle⟩
    refine ⟨s, promises_refused refused, ?_⟩
    rw [executePhase2_idle idle]
    exact ⟨rfl, rfl, rfl, rfl, rfl⟩

theorem leaderHandle_untouched_iff (cfg : Config) (s : LeaderState) (buf : UdpBuffer)
    (d : Datagram) :
    (∃ t, leaderHandleProposerMsg cfg s buf d = some t ∧ s.Untouched t) ↔
      LeaderStops cfg s buf d := by
  obtain ⟨type, htype⟩ := receive_int buf d 4 (by decide) (by decide)
  have hself : s.Untouched s := ⟨rfl, rfl, rfl, rfl, rfl⟩
  rw [leaderStops_iff htype]
  simp only [leaderHandleProposerMsg, htype, Option.bind_some]
  by_cases hpromise : type = paxosPromise
  · by_cases hshort : (d.bytes.length : Int) < sizeofPaxosMsg + sizeofPromiseBatchMsg
    · simp only [hpromise, hshort, ne_eq, not_true, if_false, if_true, true_or, or_true, iff_true]
      exact ⟨s, rfl, hself⟩
    · simp only [hpromise, hshort, ne_eq, not_true, if_false, false_or]
      cases hread : readPromiseBatch (buf.receive d) sizeofPaxosMsg with
      | none => simp
      | some batch =>
          have hboth := storeAndExecute_untouched_iff cfg s batch.acceptorId
            (batch.data.take batch.count.toNat) (firstIid batch) (lastIid batch)
          by_cases hends : batch.Endless
          · simp [hends]
          · simp only [Option.bind_some, hends, if_false, Option.bind_eq_some_iff,
              Option.some.injEq, exists_eq_left', not_false_eq_true, and_true, ← hboth]
            constructor
            · intro ⟨t, ⟨u, run, heq⟩, untouched⟩
              exact ⟨u, run, heq ▸ untouched⟩
            · intro ⟨u, run, untouched⟩
              exact ⟨_, ⟨u, run, rfl⟩, untouched⟩
  · simp only [hpromise, ne_eq, not_false_eq_true, if_true, true_or, iff_true]
    exact ⟨s, rfl, hself⟩

theorem leaderHandle_encoded_iff {msg : PaxosMsg} (h : LeaderEncodes cfg d msg)
    (s : LeaderState) (buf : UdpBuffer) :
    leaderHandleProposerMsg cfg s buf d = some (leaderHandles cfg s msg.data) ↔
      ∀ batch, msg.data = .promise batch → ¬ batch.Endless := by
  obtain ⟨-, htype, hdata⟩ := h.header buf
  cases hpromise : msg.data with
  | promise batch =>
      have hfits : PaxosData.Fits (.promise batch) := hpromise ▸ h.fits
      rw [hpromise] at htype hdata
      have hread := readPromiseBatch_of_holds hfits hdata
      have hlong : ¬ (d.bytes.length : Int) < sizeofPaxosMsg + sizeofPromiseBatchMsg := by
        have hle := h.length_le
        rw [hpromise, PaxosData.bytes, PromiseBatchMsg.bytes, List.length_append, ints_length]
          at hle
        simp only [List.length_cons, List.length_nil, sizeofPaxosMsg] at hle
        simp only [sizeofPaxosMsg, sizeofPromiseBatchMsg]
        omega
      simp only [leaderHandleProposerMsg, htype, PaxosData.type, Option.bind_some, ne_eq,
        not_true, if_false, hlong, hread, promises_stored (h.index batch hpromise)]
      by_cases hends : batch.Endless
      · simp [hends]
      · simp only [hends, if_false, PaxosData.promise.injEq, forall_eq', not_false_eq_true,
          iff_true]
        rfl
  | prepare _ | accept _ | lsync _ | learn _ | anyval _ =>
      rw [hpromise] at htype
      simp only [leaderHandleProposerMsg, htype, PaxosData.type, Option.bind_some,
        reduceCtorEq, false_implies, implies_true, iff_true]
      rfl

/-- A leader handles well-formed datagrams as the messages they encode, up to those that end
at `INT_MAX`, and is left alone by a malformed one exactly when it is stopped. -/
theorem leader_receives_iff (cfg : Config) (s : LeaderState) (buf : UdpBuffer) (d : Datagram) :
    LeaderReceives cfg s buf d ↔
      (∀ msg, LeaderEncodes cfg d msg → ∀ batch, msg.data = .promise batch → ¬ batch.Endless) ∧
        ((∃ msg, LeaderEncodes cfg d msg) ∨ LeaderStops cfg s buf d) := by
  constructor
  · intro h
    refine ⟨fun msg hmsg => (leaderHandle_encoded_iff hmsg s buf).mp (h.encoded msg hmsg), ?_⟩
    by_cases encoded : ∃ msg, LeaderEncodes cfg d msg
    · exact .inl encoded
    · exact .inr ((leaderHandle_untouched_iff cfg s buf d).mp
        (h.malformed (not_exists.mp encoded)))
  · intro ⟨ends, h⟩
    refine ⟨fun msg hmsg => (leaderHandle_encoded_iff hmsg s buf).mpr (ends msg hmsg),
      fun malformed => ?_⟩
    cases h with
    | inl encoded =>
        obtain ⟨msg, hmsg⟩ := encoded
        exact absurd hmsg (malformed msg)
    | inr stops => exact (leaderHandle_untouched_iff cfg s buf d).mpr stops

end Datagrams

end LibFastPaxos
