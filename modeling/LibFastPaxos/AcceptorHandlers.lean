import LibFastPaxos.AcceptorStore

/-!
One equation for each handler. A handler first reads the record of the
instance, from the slot or from disk, and then either leaves the store alone or
writes one record back to where it read it. The three copies of that code in
each handler of acceptor.c are instances of the same equation.
-/

namespace LibFastPaxos

section Read

variable (cfg : Config) (env : DiskEnv) (s : AcceptorState) (iid : Int)

/-- A newer instance holds the slot, so that only the disk can answer. -/
def AcceptorState.evicted : Bool := decide (iid < (s.slot cfg iid).iid)

/-- The state after looking the record up. -/
def AcceptorState.consult : AcceptorState :=
  if s.evicted cfg iid then s.emit (.get iid) else s

def readRecord : Option AcceptorRecord :=
  if s.evicted cfg iid then (diskLookupRecord env s iid).2
  else if iid = (s.slot cfg iid).iid then some (s.slot cfg iid)
  else none

/-- What a handler fills in when it finds no record: the slot with its leftovers,
or fresh heap memory. -/
def blankRecord : AcceptorRecord :=
  if s.evicted cfg iid then
    { iid := 0, proposerId := 0, ballot := 0, valueBallot := 0, valueSize := 0,
      anyEnabled := false, value := none }
  else s.slot cfg iid

def recordPtr : RecordPtr :=
  if s.evicted cfg iid then .heap else .slot (cfg.acceptorArraySize.index iid)

/-- Write a record where it was read from. -/
def writeBack (r : AcceptorRecord) : AcceptorState :=
  diskUpdateRecord cfg env ((s.consult cfg iid).store r (recordPtr cfg s iid)) r

end Read

/-- The image a granted prepare leaves. -/
def PrepareMsg.image (msg : PrepareMsg) : Option FlatRecord → FlatRecord
  | none =>
      { iid := msg.iid, ballot := msg.ballot, valueBallot := -1, valueSize := 0, value := [] }
  | some f => { f with ballot := msg.ballot }

def PrepareMsg.record (msg : PrepareMsg) (blank : AcceptorRecord) :
    Option AcceptorRecord → AcceptorRecord
  | none =>
      { blank with
        iid := msg.iid, ballot := msg.ballot, valueBallot := -1, valueSize := 0, value := none }
  | some r => { r with ballot := msg.ballot }

def AcceptMsg.image (amsg : AcceptMsg) : FlatRecord where
  iid := amsg.iid
  ballot := amsg.ballot
  valueBallot := amsg.ballot
  valueSize := amsg.valueSize
  value := amsg.value

def AcceptMsg.record (amsg : AcceptMsg) (r : AcceptorRecord) : AcceptorRecord :=
  { r with
    iid := amsg.iid
    ballot := amsg.ballot
    valueBallot := amsg.ballot
    proposerId := amsg.proposerId
    value := some (memcpy amsg.value amsg.valueSize)
    valueSize := amsg.valueSize }

/-- The record `handle_accept` overwrites. -/
def acceptBase (blank : AcceptorRecord) : Option AcceptorRecord → AcceptorRecord
  | none => blank
  | some r => { r with anyEnabled := false }

def anyvalRecord (r : AcceptorRecord) (iid ballot : Int) : AcceptorRecord :=
  { r with
    iid := iid
    ballot := ballot
    valueBallot := -1
    proposerId := -1
    value := none
    valueSize := 0
    anyEnabled := true }

def anyvalImage (iid ballot : Int) : FlatRecord where
  iid := iid
  ballot := ballot
  valueBallot := -1
  valueSize := 0
  value := []

def FlatRecord.promise (f : FlatRecord) : PromiseMsg where
  iid := f.iid
  ballot := f.ballot
  valueBallot := f.valueBallot
  valueSize := f.valueSize
  value := f.value

/-- A prepare is granted unless the record found has as high a ballot. -/
def PrepareMsg.Granted (msg : PrepareMsg) (found : Option AcceptorRecord) : Prop :=
  ∀ r, found = some r → r.ballot < msg.ballot

/-- `handle_accept` applies the accept it is given. -/
def AcceptMsg.Applied (cfg : Config) (amsg : AcceptMsg) : Option AcceptorRecord → Prop
  | none => cfg.minBallot ≤ amsg.ballot
  | some r => r.anyEnabled = true ∨ (r.ballot ≤ amsg.ballot ∧ cfg.minBallot ≤ amsg.ballot)

/-- `handle_anyval` applies the anyval it is given. -/
def AnyvalApplied (ballot : Int) : Option AcceptorRecord → Prop
  | none => True
  | some r => r.anyEnabled = true ∨ r.ballot ≤ ballot

instance (msg : PrepareMsg) : (found : Option AcceptorRecord) → Decidable (msg.Granted found)
  | none => isTrue (by simp [PrepareMsg.Granted])
  | some r => decidable_of_iff (r.ballot < msg.ballot) (by simp [PrepareMsg.Granted])

instance (cfg : Config) (amsg : AcceptMsg) :
    (found : Option AcceptorRecord) → Decidable (amsg.Applied cfg found)
  | none => inferInstanceAs (Decidable (_ ≤ _))
  | some _ => inferInstanceAs (Decidable (_ ∨ _))

section Equations

variable {cfg : Config} {env : DiskEnv} {s : AcceptorState}

/-- The instance in the slot of an instance. -/
inductive SlotCase (cfg : Config) (s : AcceptorState) (iid : Int) : Prop where
  | newer (evicted : s.evicted cfg iid = true) (lt : iid < (s.slot cfg iid).iid)
  | same (evicted : s.evicted cfg iid = false) (eq : iid = (s.slot cfg iid).iid)
  | older (evicted : s.evicted cfg iid = false) (ne : iid ≠ (s.slot cfg iid).iid)
      (lt : (s.slot cfg iid).iid < iid)

theorem slot_cases (cfg : Config) (s : AcceptorState) (iid : Int) : SlotCase cfg s iid := by
  by_cases hlt : iid < (s.slot cfg iid).iid
  · exact .newer (decide_eq_true hlt) hlt
  · by_cases heq : iid = (s.slot cfg iid).iid
    · exact .same (decide_eq_false hlt) heq
    · exact .older (decide_eq_false hlt) heq (by omega)

theorem handlePrepare_granted {msg : PrepareMsg}
    (high : s.evicted cfg msg.iid = true → readRecord cfg env s msg.iid = none → -1 < msg.ballot)
    (granted : msg.Granted (readRecord cfg env s msg.iid)) :
    handlePrepare cfg env s msg =
      let r := msg.record (blankRecord cfg s msg.iid) (readRecord cfg env s msg.iid)
      addPromiseToSendBuffer cfg env (writeBack cfg env s msg.iid r) r := by
  cases slot_cases cfg s msg.iid with
  | newer he h =>
      have hnew : ¬ msg.iid > (s.slot cfg msg.iid).iid := by omega
      have hsame : ¬ msg.iid = (s.slot cfg msg.iid).iid := by omega
      cases hd : (diskLookupRecord env s msg.iid).2 with
      | none =>
          have hb : msg.ballot > -1 := high he (by simp [readRecord, he, hd])
          simp [handlePrepare, hnew, hsame, readRecord, blankRecord, writeBack, recordPtr,
            AcceptorState.consult, he, hd, hb, AcceptorState.store, PrepareMsg.record]
          rfl
      | some r =>
          have hlt : r.ballot < msg.ballot := granted r (by simp [readRecord, he, hd])
          simp [handlePrepare, hnew, hsame, readRecord, writeBack, recordPtr,
            AcceptorState.consult, he, hd, hlt, AcceptorState.store, PrepareMsg.record]
          rfl
  | same he h =>
      have hlt : ¬ msg.ballot ≤ (s.slot cfg msg.iid).ballot := by
        have := granted (s.slot cfg msg.iid) (by simp [readRecord, he, ← h])
        omega
      simp [handlePrepare, ← h, hlt, readRecord, writeBack, recordPtr,
        AcceptorState.consult, he, PrepareMsg.record]
  | older he hne h =>
      simp [handlePrepare, h, hne, readRecord, blankRecord, writeBack, recordPtr,
        AcceptorState.consult, he, PrepareMsg.record]

/-- A record created for the prepare has the ballot -1. -/
theorem handlePrepare_below {msg : PrepareMsg} (newer : s.evicted cfg msg.iid = true)
    (missing : readRecord cfg env s msg.iid = none) (low : ¬ -1 < msg.ballot) :
    handlePrepare cfg env s msg = s.consult cfg msg.iid := by
  have h : msg.iid < (s.slot cfg msg.iid).iid := of_decide_eq_true newer
  have hnew : ¬ msg.iid > (s.slot cfg msg.iid).iid := by omega
  have hsame : ¬ msg.iid = (s.slot cfg msg.iid).iid := by omega
  have hd : (diskLookupRecord env s msg.iid).2 = none := by simpa [readRecord, newer] using missing
  simp [handlePrepare, hnew, hsame, hd, low, AcceptorState.consult, newer]
  rfl

theorem handlePrepare_refused {msg : PrepareMsg}
    (refused : ¬ msg.Granted (readRecord cfg env s msg.iid)) :
    handlePrepare cfg env s msg = s.consult cfg msg.iid := by
  obtain ⟨r, hr, hle⟩ : ∃ r, readRecord cfg env s msg.iid = some r ∧ msg.ballot ≤ r.ballot := by
    simpa [PrepareMsg.Granted] using refused
  cases slot_cases cfg s msg.iid with
  | newer he h =>
      have hnew : ¬ msg.iid > (s.slot cfg msg.iid).iid := by omega
      have hsame : ¬ msg.iid = (s.slot cfg msg.iid).iid := by omega
      have hd : (diskLookupRecord env s msg.iid).2 = some r := by simpa [readRecord, he] using hr
      have hlt : ¬ msg.ballot > r.ballot := by omega
      simp [handlePrepare, hnew, hsame, hd, hlt, AcceptorState.consult, he]
      rfl
  | same he h =>
      have hd : s.slot cfg msg.iid = r := by simpa [readRecord, he, ← h] using hr
      subst hd
      simp [handlePrepare, ← h, hle, AcceptorState.consult, he]
  | older he hne h => simp [readRecord, he, hne] at hr

/-- The learn `send_learn_message` builds from a record. -/
def learnPacket (acceptorId : Int) (r : AcceptorRecord) : PaxosMsg where
  size := sizeofLearnMsg + r.valueSize
  data := .learn (learnOf acceptorId r)

theorem handleAccept_applied {amsg : AcceptMsg}
    (applied : amsg.Applied cfg (readRecord cfg env s amsg.iid)) :
    handleAccept cfg env s amsg =
      let r := amsg.record
        (acceptBase (blankRecord cfg s amsg.iid) (readRecord cfg env s amsg.iid))
      sendLearnMessage
        ((diskForceSyncrony cfg env (writeBack cfg env s amsg.iid r)).emit
          (.log (.acceptApplied amsg))) r := by
  cases slot_cases cfg s amsg.iid with
  | newer he h =>
      have hnew : ¬ amsg.iid > (s.slot cfg amsg.iid).iid := by omega
      have hsame : ¬ amsg.iid = (s.slot cfg amsg.iid).iid := by omega
      have hpair : diskLookupRecord env s amsg.iid =
          (s.emit (.get amsg.iid), (diskLookupRecord env s amsg.iid).2) := rfl
      cases hd : (diskLookupRecord env s amsg.iid).2 with
      | none =>
          rw [hd] at hpair
          have hb : cfg.minBallot ≤ amsg.ballot := by
            simpa [readRecord, he, hd, AcceptMsg.Applied] using applied
          simp only [handleAccept, hnew, hsame, if_false, hpair, hb, if_true, writeBack, recordPtr,
            AcceptorState.consult, he, AcceptorState.store, applyAccept, readRecord,
            acceptBase, blankRecord]
          rfl
      | some r =>
          rw [hd] at hpair
          have hb : acceptAllowed cfg r amsg.ballot = true := by
            simpa [readRecord, he, hd, AcceptMsg.Applied, acceptAllowed] using applied
          simp only [handleAccept, hnew, hsame, if_false, hpair, hb, if_true, writeBack, recordPtr,
            AcceptorState.consult, he, AcceptorState.store, applyAccept, readRecord, acceptBase]
          rfl
  | same he h =>
      have hb : acceptAllowed cfg (s.slot cfg amsg.iid) amsg.ballot = true := by
        simpa [readRecord, he, ← h, AcceptMsg.Applied, acceptAllowed] using applied
      simp only [handleAccept, if_pos h, hb, if_true, writeBack, recordPtr, AcceptorState.consult,
        he, Bool.false_eq_true, if_false, applyAccept, readRecord, acceptBase]
      rfl
  | older he hne h =>
      have hb : cfg.minBallot ≤ amsg.ballot := by
        simpa [readRecord, he, hne, AcceptMsg.Applied] using applied
      simp only [handleAccept, if_neg hne, gt_iff_lt, h, if_true, ge_iff_le, hb, writeBack,
        recordPtr, AcceptorState.consult, he, Bool.false_eq_true, if_false, applyAccept, readRecord,
        acceptBase, blankRecord]
      rfl

theorem handleAccept_refused {amsg : AcceptMsg}
    (refused : ¬ amsg.Applied cfg (readRecord cfg env s amsg.iid)) :
    handleAccept cfg env s amsg = s.consult cfg amsg.iid := by
  cases slot_cases cfg s amsg.iid with
  | newer he h =>
      have hnew : ¬ amsg.iid > (s.slot cfg amsg.iid).iid := by omega
      have hsame : ¬ amsg.iid = (s.slot cfg amsg.iid).iid := by omega
      have hpair : diskLookupRecord env s amsg.iid =
          (s.emit (.get amsg.iid), (diskLookupRecord env s amsg.iid).2) := rfl
      cases hd : (diskLookupRecord env s amsg.iid).2 with
      | none =>
          rw [hd] at hpair
          have hb : ¬ cfg.minBallot ≤ amsg.ballot := by
            simpa [readRecord, he, hd, AcceptMsg.Applied] using refused
          simp only [handleAccept, hnew, hsame, if_false, hpair, ge_iff_le, hb,
            AcceptorState.consult, he, if_true]
      | some r =>
          rw [hd] at hpair
          have hb : ¬ acceptAllowed cfg r amsg.ballot = true := by
            simpa [readRecord, he, hd, AcceptMsg.Applied, acceptAllowed] using refused
          simp only [handleAccept, hnew, hsame, if_false, hpair, hb, Bool.false_eq_true,
            AcceptorState.consult, he, if_true]
  | same he h =>
      have hb : ¬ acceptAllowed cfg (s.slot cfg amsg.iid) amsg.ballot = true := by
        simpa [readRecord, he, ← h, AcceptMsg.Applied, acceptAllowed] using refused
      simp only [handleAccept, if_pos h, hb, Bool.false_eq_true, if_false, AcceptorState.consult,
        he]
  | older he hne h =>
      have hb : ¬ cfg.minBallot ≤ amsg.ballot := by
        simpa [readRecord, he, hne, AcceptMsg.Applied] using refused
      simp only [handleAccept, if_neg hne, gt_iff_lt, h, if_true, ge_iff_le, hb, if_false,
        AcceptorState.consult, he, Bool.false_eq_true]

theorem handleAnyval_missing {iid ballot : Int} (newer : s.evicted cfg iid = true)
    (missing : readRecord cfg env s iid = none) : handleAnyval cfg env s iid ballot = none := by
  have h : iid < (s.slot cfg iid).iid := by simpa [AcceptorState.evicted] using newer
  have hnew : ¬ iid > (s.slot cfg iid).iid := by omega
  have hsame : ¬ iid = (s.slot cfg iid).iid := by omega
  have hd : (diskLookupRecord env s iid).2 = none := by simpa [readRecord, newer] using missing
  have hpair : diskLookupRecord env s iid = (s.emit (.get iid), none) := by rw [← hd]; rfl
  simp only [handleAnyval, hnew, hsame, if_false, hpair]

theorem handleAnyval_applied {iid ballot : Int}
    (present : s.evicted cfg iid = true → readRecord cfg env s iid ≠ none)
    (applied : AnyvalApplied ballot (readRecord cfg env s iid)) :
    handleAnyval cfg env s iid ballot =
      let r := anyvalRecord ((readRecord cfg env s iid).getD (blankRecord cfg s iid)) iid ballot
      some ((writeBack cfg env s iid r).emit (.log (.anyvalApplied iid ballot))) := by
  cases slot_cases cfg s iid with
  | newer he h =>
      have hnew : ¬ iid > (s.slot cfg iid).iid := by omega
      have hsame : ¬ iid = (s.slot cfg iid).iid := by omega
      have hpair : diskLookupRecord env s iid =
          (s.emit (.get iid), (diskLookupRecord env s iid).2) := rfl
      cases hd : (diskLookupRecord env s iid).2 with
      | none => exact absurd (by simp [readRecord, he, hd]) (present he)
      | some r =>
          rw [hd] at hpair
          have hb : anyvalAllowed r ballot = true := by
            simpa [readRecord, he, hd, AnyvalApplied, anyvalAllowed] using applied
          simp only [handleAnyval, hnew, hsame, if_false, hpair, hb, if_true, writeBack, recordPtr,
            AcceptorState.consult, he, AcceptorState.store, applyAnyval]
          rfl
  | same he h =>
      have hb : anyvalAllowed (s.slot cfg iid) ballot = true := by
        simpa [readRecord, he, ← h, AnyvalApplied, anyvalAllowed] using applied
      simp only [handleAnyval, if_pos h, hb, if_true, writeBack, recordPtr, AcceptorState.consult,
        he, Bool.false_eq_true, if_false, applyAnyval]
      rfl
  | older he hne h =>
      simp only [handleAnyval, if_neg hne, gt_iff_lt, h, if_true, writeBack, recordPtr,
        AcceptorState.consult, he, Bool.false_eq_true, if_false, applyAnyval]
      rfl

theorem handleAnyval_refused {iid ballot : Int}
    (refused : ¬ AnyvalApplied ballot (readRecord cfg env s iid)) :
    handleAnyval cfg env s iid ballot = some (s.consult cfg iid) := by
  cases slot_cases cfg s iid with
  | newer he h =>
      have hnew : ¬ iid > (s.slot cfg iid).iid := by omega
      have hsame : ¬ iid = (s.slot cfg iid).iid := by omega
      have hpair : diskLookupRecord env s iid =
          (s.emit (.get iid), (diskLookupRecord env s iid).2) := rfl
      cases hd : (diskLookupRecord env s iid).2 with
      | none => simp [readRecord, he, hd, AnyvalApplied] at refused
      | some r =>
          rw [hd] at hpair
          have hb : ¬ anyvalAllowed r ballot = true := by
            simpa [readRecord, he, hd, AnyvalApplied, anyvalAllowed] using refused
          simp only [handleAnyval, hnew, hsame, if_false, hpair, hb, Bool.false_eq_true,
            AcceptorState.consult, he, if_true]
  | same he h =>
      have hb : ¬ anyvalAllowed (s.slot cfg iid) ballot = true := by
        simpa [readRecord, he, ← h, AnyvalApplied, anyvalAllowed] using refused
      simp only [handleAnyval, if_pos h, hb, Bool.false_eq_true, if_false, AcceptorState.consult,
        he]
  | older he hne h => simp [readRecord, he, hne, AnyvalApplied] at refused

/-- From disk `value` is never NULL, so a record found there is always answered. -/
theorem handleLsync_eq (iid : Int) :
    handleLsync cfg env s iid =
      match readRecord cfg env s iid with
      | none => s.consult cfg iid
      | some r => if r.value.isSome then sendLearnMessage (s.consult cfg iid) r
          else s.consult cfg iid := by
  cases slot_cases cfg s iid with
  | newer he h =>
      have hsame : ¬ iid = (s.slot cfg iid).iid := by omega
      have hpair : diskLookupRecord env s iid =
          (s.emit (.get iid), (diskLookupRecord env s iid).2) := rfl
      cases hd : (diskLookupRecord env s iid).2 with
      | none =>
          rw [hd] at hpair
          simp only [handleLsync, hsame, if_false, h, if_true, hpair, readRecord, he,
            AcceptorState.consult]
      | some r =>
          have hv : r.value.isSome = true := by
            simp only [diskLookupRecord, Option.map_eq_some_iff] at hd
            obtain ⟨flat, -, rfl⟩ := hd
            rfl
          rw [hd] at hpair
          simp only [handleLsync, hsame, if_false, h, if_true, hpair, readRecord, he, hv,
            AcceptorState.consult]
  | same he h =>
      simp only [handleLsync, if_pos h, readRecord, he, Bool.false_eq_true, if_false,
        AcceptorState.consult]
  | older he hne h =>
      have hold : ¬ iid < (s.slot cfg iid).iid := by omega
      simp only [handleLsync, if_neg hne, hold, if_false, readRecord, he, Bool.false_eq_true,
        AcceptorState.consult]

end Equations

/-! ### What a coherent store answers and keeps -/

section Coherence

variable {cfg : Config} {env : DiskEnv} {s : AcceptorState} {iid : Int}

@[simp] theorem consult_frame :
    (s.consult cfg iid).acceptorArray = s.acceptorArray ∧
      (s.consult cfg iid).accDb = s.accDb ∧
      (s.consult cfg iid).acceptorId = s.acceptorId ∧
      (s.consult cfg iid).promiseBatch = s.promiseBatch ∧
      (s.consult cfg iid).log = s.log ∧ (s.consult cfg iid).sent = s.sent := by
  simp only [AcceptorState.consult]
  split <;> simp [Effect.logged?, Effect.sent?]

theorem consult_stored : (s.consult cfg iid).stored = s.stored :=
  stored_of_accDb consult_frame.2.1

theorem AcceptorState.Coherent.consult (coh : s.Coherent cfg) :
    (s.consult cfg iid).Coherent cfg :=
  coh.congr consult_frame.1 consult_frame.2.1

theorem placed_recordPtr (cfg : Config) (s : AcceptorState) (iid : Int) :
    (s.consult cfg iid).Placed cfg iid (recordPtr cfg s iid) := by
  have hslot : ((s.consult cfg iid).acceptorArray (cfg.acceptorArraySize.index iid)).iid =
      (s.slot cfg iid).iid := by rw [consult_frame.1]; rfl
  cases slot_cases cfg s iid with
  | newer he h => simpa [recordPtr, he, AcceptorState.Placed, AcceptorState.slot] using h
  | same he h =>
      simp only [recordPtr, he, Bool.false_eq_true, if_false, AcceptorState.Placed, true_and]
      omega
  | older he _ h =>
      simp only [recordPtr, he, Bool.false_eq_true, if_false, AcceptorState.Placed, true_and]
      omega

/-- A record read by a handler agrees with the disk image. -/
structure ReadFaithful (cfg : Config) (s : AcceptorState) (iid : Int) (r : AcceptorRecord) :
    Prop where
  iid_eq : r.iid = iid
  stored : s.stored iid = some (flatten r)
  consistent : (flatten r).Consistent
  value : s.evicted cfg iid = false → (r.value.isSome ↔ r.valueBallot ≠ -1)

theorem AcceptorState.Coherent.slot (coh : s.Coherent cfg) (nonneg : 0 ≤ iid)
    (held : iid = (s.slot cfg iid).iid) :
    s.SlotCoherent cfg (cfg.acceptorArraySize.index iid) := by
  cases coh.slots (cfg.acceptorArraySize.index iid) with
  | inl h =>
      simp only [AcceptorState.slot] at held
      omega
  | inr h => exact h

theorem AcceptorState.Coherent.read_some (coh : s.Coherent cfg) (nonneg : 0 ≤ iid)
    {r : AcceptorRecord} (h : readRecord cfg env s iid = some r) : ReadFaithful cfg s iid r := by
  cases slot_cases cfg s iid with
  | newer he hlt =>
      simp only [readRecord, he, if_true, diskLookupRecord, Option.map_eq_some_iff] at h
      obtain ⟨flat, hf, rfl⟩ := h
      have hd := coh.disk iid flat hf
      have hflat : flatten
          { iid := flat.iid, proposerId := env.uninitProposerId s.trace.length,
            ballot := flat.ballot, valueBallot := flat.valueBallot, valueSize := flat.valueSize,
            anyEnabled := env.uninitAnyEnabled s.trace.length,
            value := some (memcpy flat.value flat.valueSize) } = flat := by
        have hv := memcpy_of_length hd.consistent.valueSize_eq
        simp only [flatten, Option.getD_some, hv]
      exact ⟨hd.iid_eq, by rw [hflat]; exact hf, by rw [hflat]; exact hd.consistent,
        fun hne => absurd he (by simp [hne])⟩
  | same he heq =>
      have hslot := coh.slot nonneg heq
      have hr : s.slot cfg iid = r := by simpa [readRecord, he, ← heq] using h
      subst hr
      have hst : s.stored iid = some (flatten (s.slot cfg iid)) := by
        have := hslot.on_disk
        rwa [← AcceptorState.slot, ← heq] at this
      exact ⟨heq.symm, hst, (coh.disk iid _ hst).consistent, fun _ => hslot.value_iff⟩
  | older he hne _ => simp [readRecord, he, hne] at h

theorem AcceptorState.Coherent.read_none (coh : s.Coherent cfg)
    (h : readRecord cfg env s iid = none) : s.stored iid = none := by
  cases slot_cases cfg s iid with
  | newer he hlt => simpa [readRecord, he, diskLookupRecord, AcceptorState.stored] using h
  | same he heq => simp [readRecord, he, ← heq] at h
  | older he hne hlt =>
      cases hs : s.stored iid with
      | none => rfl
      | some f =>
          have := (coh.disk iid f hs).le_slot
          omega

/-- Only the flag and the owner of what is read depend on where it is read. -/
theorem AcceptorState.Coherent.read_eq (coh : s.Coherent cfg) (env : DiskEnv)
    (nonneg : 0 ≤ iid) :
    (readRecord cfg env s iid).map flatten = s.stored iid := by
  cases h : readRecord cfg env s iid with
  | none => exact (coh.read_none h).symm
  | some r => exact (coh.read_some nonneg h).stored.symm

theorem writeBack_frame (r : AcceptorRecord) :
    (writeBack cfg env s iid r).acceptorId = s.acceptorId ∧
      (writeBack cfg env s iid r).promiseBatch = s.promiseBatch ∧
      (writeBack cfg env s iid r).log = s.log ∧ (writeBack cfg env s iid r).sent = s.sent := by
  simp [writeBack]

/-- A put leaves every slot but the one it was written to. -/
theorem writeBack_slots (cfg : Config) (env : DiskEnv) (s : AcceptorState) (iid : Int)
    (r : AcceptorRecord) (k : Nat) :
    (writeBack cfg env s iid r).acceptorArray k = r ∨
      (writeBack cfg env s iid r).acceptorArray k = s.acceptorArray k := by
  have harray : (writeBack cfg env s iid r).acceptorArray =
      ((s.consult cfg iid).store r (recordPtr cfg s iid)).acceptorArray := by
    simp [writeBack]
  rw [harray]
  cases recordPtr cfg s iid with
  | slot j =>
      simp only [AcceptorState.store, Function.update_apply, consult_frame.1]
      split
      · exact .inl rfl
      · exact .inr rfl
  | heap => exact .inr (congrFun consult_frame.1 k)

variable (cfg env s) in
/-- Writing back changes the slot of the instance, unless a newer instance holds it. -/
theorem writeBack_slot {r : AcceptorRecord} (hr : r.iid = iid) (k : Nat) :
    ((writeBack cfg env s iid r).acceptorArray k = r ∧ s.evicted cfg iid = false ∧
        k = cfg.acceptorArraySize.index iid) ∨
      ((writeBack cfg env s iid r).acceptorArray k = s.acceptorArray k ∧
        (k = cfg.acceptorArraySize.index iid → iid < (s.acceptorArray k).iid)) := by
  subst hr
  have hp := placed_recordPtr cfg s r.iid
  cases slot_of_placed hp k with
  | inl hand =>
      obtain ⟨hnew, hk, _, hptr⟩ := hand
      left
      refine ⟨by simpa [writeBack] using hnew, ?_, hk⟩
      cases he : s.evicted cfg r.iid with
      | false => rfl
      | true => simp [recordPtr, he] at hptr
  | inr hand =>
      obtain ⟨hold, hk⟩ := hand
      right
      exact ⟨by simpa [writeBack] using hold, by simpa using hk⟩

theorem writeBack_stored (cfg : Config) (puts : env.PutsSucceed) {r : AcceptorRecord}
    (hr : r.iid = iid) :
    (writeBack cfg env s iid r).stored = Function.update s.stored iid (some (flatten r)) := by
  rw [writeBack, stored_write cfg puts, consult_stored, hr]

theorem AcceptorState.Coherent.writeBack (coh : s.Coherent cfg) (puts : env.PutsSucceed)
    (nonneg : 0 ≤ iid) {r : AcceptorRecord} (hr : r.iid = iid)
    (consistent : (flatten r).Consistent)
    (value : s.evicted cfg iid = false → (r.value.isSome ↔ r.valueBallot ≠ -1)) :
    (writeBack cfg env s iid r).Coherent cfg := by
  subst hr
  refine coh.consult.write puts (placed_recordPtr cfg s _) nonneg consistent ?_
  intro k hk
  apply value
  cases he : s.evicted cfg r.iid with
  | false => rfl
  | true => simp [recordPtr, he] at hk

end Coherence
end LibFastPaxos
