import LibFastPaxos.Acceptor
import Mathlib.Data.Option.Basic

/-!
The two-level store of an acceptor. Every write goes to disk, so the disk image
of an instance is what the handlers consult for it, and the slot adds the two
fields the image lacks. `Coherent` is the invariant of the pair, and one lemma
about writing a record carries it through every handler.
-/

namespace LibFastPaxos

/-- The record handlers consult for an instance. -/
def AcceptorState.stored (s : AcceptorState) (iid : Int) : Option FlatRecord :=
  s.accDb (iid + 1)

structure FlatRecord.Consistent (f : FlatRecord) : Prop where
  valueSize_eq : f.valueSize = f.value.length
  no_value : f.valueBallot = -1 → f.value = []

/-- A slot that holds an instance is in place and agrees with the disk. -/
structure AcceptorState.SlotCoherent (s : AcceptorState) (cfg : Config) (k : Nat) : Prop where
  nonneg : 0 ≤ (s.acceptorArray k).iid
  in_place : cfg.acceptorArraySize.index (s.acceptorArray k).iid = k
  on_disk : s.stored (s.acceptorArray k).iid = some (flatten (s.acceptorArray k))
  value_iff : (s.acceptorArray k).value.isSome ↔ (s.acceptorArray k).valueBallot ≠ -1

/-- An image on disk belongs to its record number and is not newer than its slot. -/
structure AcceptorState.DiskCoherent (s : AcceptorState) (cfg : Config) (iid : Int)
    (f : FlatRecord) : Prop where
  nonneg : 0 ≤ iid
  iid_eq : f.iid = iid
  le_slot : iid ≤ (s.slot cfg iid).iid
  consistent : f.Consistent

structure AcceptorState.Coherent (s : AcceptorState) (cfg : Config) : Prop where
  slots : ∀ k, (s.acceptorArray k).iid = -1 ∨ s.SlotCoherent cfg k
  disk : ∀ iid f, s.stored iid = some f → s.DiskCoherent cfg iid f

section Frames

variable (cfg : Config) (env : DiskEnv) (s : AcceptorState) (r : AcceptorRecord)

@[simp] theorem emit_frame (e : Effect) :
    (s.emit e).acceptorArray = s.acceptorArray ∧ (s.emit e).accDb = s.accDb ∧
      (s.emit e).acceptorId = s.acceptorId ∧ (s.emit e).promiseBatch = s.promiseBatch ∧
      (s.emit e).trace = e :: s.trace :=
  ⟨rfl, rfl, rfl, rfl, rfl⟩

@[simp] theorem emit_log (e : Effect) : (s.emit e).log = (Effect.logged? e).toList ++ s.log := by
  cases e <;> rfl

@[simp] theorem emit_sent (e : Effect) : (s.emit e).sent = (Effect.sent? e).toList ++ s.sent := by
  cases e <;> rfl

@[simp] theorem writeDb_frame (recno : Int) (flat : FlatRecord) :
    (s.writeDb recno flat).acceptorArray = s.acceptorArray ∧
      (s.writeDb recno flat).accDb = Function.update s.accDb recno (some flat) ∧
      (s.writeDb recno flat).acceptorId = s.acceptorId ∧
      (s.writeDb recno flat).promiseBatch = s.promiseBatch ∧
      (s.writeDb recno flat).log = s.log ∧ (s.writeDb recno flat).sent = s.sent :=
  ⟨rfl, rfl, rfl, rfl, rfl, rfl⟩

@[simp] theorem store_frame (ptr : RecordPtr) :
    (s.store r ptr).accDb = s.accDb ∧ (s.store r ptr).acceptorId = s.acceptorId ∧
      (s.store r ptr).promiseBatch = s.promiseBatch ∧
      (s.store r ptr).log = s.log ∧ (s.store r ptr).sent = s.sent := by
  cases ptr <;> exact ⟨rfl, rfl, rfl, rfl, rfl⟩

@[simp] theorem diskForceSyncrony_frame :
    (diskForceSyncrony cfg env s).acceptorArray = s.acceptorArray ∧
      (diskForceSyncrony cfg env s).accDb = s.accDb ∧
      (diskForceSyncrony cfg env s).acceptorId = s.acceptorId ∧
      (diskForceSyncrony cfg env s).promiseBatch = s.promiseBatch ∧
      (diskForceSyncrony cfg env s).log = s.log ∧
      (diskForceSyncrony cfg env s).sent = s.sent := by
  simp only [diskForceSyncrony]
  split <;> simp [Effect.logged?, Effect.sent?]

@[simp] theorem diskUpdateRecord_frame :
    (diskUpdateRecord cfg env s r).acceptorArray = s.acceptorArray ∧
      (diskUpdateRecord cfg env s r).acceptorId = s.acceptorId ∧
      (diskUpdateRecord cfg env s r).promiseBatch = s.promiseBatch ∧
      (diskUpdateRecord cfg env s r).log = s.log ∧
      (diskUpdateRecord cfg env s r).sent = s.sent := by
  simp only [diskUpdateRecord]
  split <;> simp [Effect.logged?, Effect.sent?]

theorem diskUpdateRecord_accDb (puts : env.PutsSucceed) :
    (diskUpdateRecord cfg env s r).accDb =
      Function.update s.accDb (r.iid + 1) (some (flatten r)) := by
  simp [diskUpdateRecord, puts s.trace.length]

/-- The two ways a put can end. -/
theorem diskUpdateRecord_cases :
    (∃ ret, ret ≠ 0 ∧ diskUpdateRecord cfg env s r = s.emit (.put (flatten r) ret)) ∨
      diskUpdateRecord cfg env s r = diskForceSyncrony cfg env
        ((s.emit (.put (flatten r) 0)).writeDb (r.iid + 1) (flatten r)) := by
  simp only [diskUpdateRecord]
  split
  · next hret => exact .inl ⟨_, hret, rfl⟩
  · next hret =>
      rw [Decidable.not_not.mp hret]
      exact .inr rfl

@[simp] theorem flushSendBuffer_frame :
    (flushSendBuffer s).acceptorArray = s.acceptorArray ∧
      (flushSendBuffer s).accDb = s.accDb ∧
      (flushSendBuffer s).acceptorId = s.acceptorId ∧
      (flushSendBuffer s).promiseBatch = s.promiseBatch ∧
      (flushSendBuffer s).log = s.log :=
  ⟨rfl, rfl, rfl, rfl, rfl⟩

@[simp] theorem resetPromiseBatch_frame :
    (resetPromiseBatch s).acceptorArray = s.acceptorArray ∧
      (resetPromiseBatch s).accDb = s.accDb ∧
      (resetPromiseBatch s).acceptorId = s.acceptorId ∧
      (resetPromiseBatch s).trace = s.trace ∧
      (resetPromiseBatch s).log = s.log ∧ (resetPromiseBatch s).sent = s.sent :=
  ⟨rfl, rfl, rfl, rfl, rfl, rfl⟩

@[simp] theorem makeRoom_frame (promiseSize : Int) :
    (makeRoom cfg env s promiseSize).acceptorArray = s.acceptorArray ∧
      (makeRoom cfg env s promiseSize).accDb = s.accDb ∧
      (makeRoom cfg env s promiseSize).acceptorId = s.acceptorId ∧
      (makeRoom cfg env s promiseSize).log = s.log := by
  simp only [makeRoom]
  split <;> split <;> simp

@[simp] theorem appendPromise_frame :
    (appendPromise s r).acceptorArray = s.acceptorArray ∧
      (appendPromise s r).accDb = s.accDb ∧
      (appendPromise s r).acceptorId = s.acceptorId ∧
      (appendPromise s r).trace = s.trace ∧
      (appendPromise s r).log = s.log ∧ (appendPromise s r).sent = s.sent :=
  ⟨rfl, rfl, rfl, rfl, rfl, rfl⟩

@[simp] theorem addPromiseToSendBuffer_frame :
    (addPromiseToSendBuffer cfg env s r).acceptorArray = s.acceptorArray ∧
      (addPromiseToSendBuffer cfg env s r).accDb = s.accDb ∧
      (addPromiseToSendBuffer cfg env s r).acceptorId = s.acceptorId ∧
      (addPromiseToSendBuffer cfg env s r).log = .promised (promiseOf r) :: s.log := by
  simp [addPromiseToSendBuffer, Effect.logged?]

@[simp] theorem flushSendBuffer_sent :
    (flushSendBuffer s).sent =
      { size := s.sendBufferSize - sizeofPaxosMsg, data := .promise s.promiseBatch } :: s.sent :=
  rfl

/-- Adding a promise may flush the batch, and takes back nothing sent. -/
theorem sent_subset_addPromise : s.sent ⊆ (addPromiseToSendBuffer cfg env s r).sent := by
  have hroom : s.sent ⊆ (makeRoom cfg env s (sizeofPromiseMsg + r.valueSize)).sent := by
    simp only [makeRoom]
    split <;> split <;> simp
  simpa [addPromiseToSendBuffer, Effect.sent?] using hroom

@[simp] theorem sendLearnMessage_frame :
    (sendLearnMessage s r).acceptorArray = s.acceptorArray ∧
      (sendLearnMessage s r).accDb = s.accDb ∧
      (sendLearnMessage s r).acceptorId = s.acceptorId ∧
      (sendLearnMessage s r).promiseBatch.data = [] ∧
      (sendLearnMessage s r).log = s.log ∧
      (sendLearnMessage s r).sent =
        { size := sizeofLearnMsg + r.valueSize, data := .learn (learnOf s.acceptorId r) } ::
          s.sent :=
  ⟨rfl, rfl, rfl, rfl, rfl, rfl⟩

end Frames

theorem stored_of_accDb {s t : AcceptorState} (h : t.accDb = s.accDb) : t.stored = s.stored := by
  funext iid
  simp [AcceptorState.stored, h]

/-- Coherence depends on the two levels of the store only. -/
theorem AcceptorState.Coherent.congr {cfg : Config} {s t : AcceptorState}
    (coh : s.Coherent cfg) (harr : t.acceptorArray = s.acceptorArray)
    (hdb : t.accDb = s.accDb) : t.Coherent cfg := by
  have hst := stored_of_accDb hdb
  constructor
  · intro k
    cases coh.slots k with
    | inl h => exact .inl (by rw [harr]; exact h)
    | inr h =>
        right
        constructor
        · rw [harr]; exact h.nonneg
        · rw [harr]; exact h.in_place
        · rw [harr, hst]; exact h.on_disk
        · rw [harr]; exact h.value_iff
  · intro iid f hf
    rw [hst] at hf
    have h := coh.disk iid f hf
    exact ⟨h.nonneg, h.iid_eq, by simpa [AcceptorState.slot, harr] using h.le_slot, h.consistent⟩

/-- Where the record of an instance may be written: its slot unless a newer
instance holds it, and then only the disk. -/
def AcceptorState.Placed (s : AcceptorState) (cfg : Config) (iid : Int) : RecordPtr → Prop
  | .slot k => k = cfg.acceptorArraySize.index iid ∧ (s.acceptorArray k).iid ≤ iid
  | .heap => iid < (s.slot cfg iid).iid

section Write

variable {cfg : Config} {env : DiskEnv} {s : AcceptorState} {r : AcceptorRecord} {ptr : RecordPtr}

theorem stored_write (cfg : Config) (puts : env.PutsSucceed) :
    (diskUpdateRecord cfg env (s.store r ptr) r).stored =
      Function.update s.stored r.iid (some (flatten r)) := by
  funext iid
  simp only [AcceptorState.stored, diskUpdateRecord_accDb cfg env _ r puts, store_frame,
    Function.update_apply]
  by_cases h : iid = r.iid
  · simp [h]
  · simp [h]

theorem slot_of_placed (placed : s.Placed cfg r.iid ptr) (k : Nat) :
    ((s.store r ptr).acceptorArray k = r ∧ k = cfg.acceptorArraySize.index r.iid ∧
        (s.acceptorArray k).iid ≤ r.iid ∧ ptr = .slot k) ∨
      ((s.store r ptr).acceptorArray k = s.acceptorArray k ∧
        (k = cfg.acceptorArraySize.index r.iid → r.iid < (s.acceptorArray k).iid)) := by
  cases ptr with
  | heap =>
      right
      refine ⟨rfl, ?_⟩
      rintro rfl
      exact placed
  | slot j =>
      obtain ⟨hj, hle⟩ := placed
      by_cases hk : k = j
      · left
        subst hk
        exact ⟨by simp [AcceptorState.store], hj, hle, rfl⟩
      · right
        exact ⟨by simp [AcceptorState.store, hk], fun h => absurd (h.trans hj.symm) hk⟩

/-- A write never puts an older instance into a slot. -/
theorem slot_le_store (placed : s.Placed cfg r.iid ptr) {iid : Int}
    (le : iid ≤ (s.slot cfg iid).iid ∨ iid = r.iid) :
    iid ≤ ((s.store r ptr).acceptorArray (cfg.acceptorArraySize.index iid)).iid := by
  cases slot_of_placed placed (cfg.acceptorArraySize.index iid) with
  | inl hand =>
      obtain ⟨hnew, _, hle, _⟩ := hand
      rw [hnew]
      cases le with
      | inl hold => exact Int.le_trans hold hle
      | inr heq => exact Int.le_of_eq heq
  | inr hand =>
      obtain ⟨hold, hk⟩ := hand
      rw [hold]
      cases le with
      | inl hle => exact hle
      | inr heq =>
          subst heq
          exact Int.le_of_lt (hk rfl)

/-- Writing the record of one instance where it belongs keeps the two levels coherent. -/
theorem AcceptorState.Coherent.write (coh : s.Coherent cfg) (puts : env.PutsSucceed)
    (placed : s.Placed cfg r.iid ptr) (nonneg : 0 ≤ r.iid)
    (consistent : (flatten r).Consistent)
    (value : ∀ k, ptr = .slot k → (r.value.isSome ↔ r.valueBallot ≠ -1)) :
    (diskUpdateRecord cfg env (s.store r ptr) r).Coherent cfg := by
  have hst : (diskUpdateRecord cfg env (s.store r ptr) r).stored = _ := stored_write cfg puts
  have harr : (diskUpdateRecord cfg env (s.store r ptr) r).acceptorArray =
      (s.store r ptr).acceptorArray := by simp
  constructor
  · intro k
    cases slot_of_placed placed k with
    | inl hand =>
        obtain ⟨hnew, hk, _, hptr⟩ := hand
        right
        constructor
        · rw [harr, hnew]; exact nonneg
        · rw [harr, hnew]; exact hk.symm
        · rw [harr, hnew, hst, Function.update_self]
        · rw [harr, hnew]; exact value k hptr
    | inr hand =>
        obtain ⟨hold, hk⟩ := hand
        cases coh.slots k with
        | inl h => exact .inl (by rw [harr, hold]; exact h)
        | inr h =>
            right
            have hne : (s.acceptorArray k).iid ≠ r.iid := by
              intro heq
              have := hk (by rw [← heq]; exact h.in_place.symm)
              omega
            constructor
            · rw [harr, hold]; exact h.nonneg
            · rw [harr, hold]; exact h.in_place
            · rw [harr, hold, hst, Function.update_of_ne hne]; exact h.on_disk
            · rw [harr, hold]; exact h.value_iff
  · intro iid f hf
    rw [hst, Function.update_apply] at hf
    split at hf
    case isTrue h =>
      subst h
      cases hf
      have hle := slot_le_store placed (.inr rfl)
      exact ⟨nonneg, rfl, by simpa [AcceptorState.slot, harr] using hle, consistent⟩
    case isFalse h =>
      have old := coh.disk iid f hf
      have hle := slot_le_store placed (.inl old.le_slot)
      exact ⟨old.nonneg, old.iid_eq, by simpa [AcceptorState.slot, harr] using hle, old.consistent⟩

end Write
end LibFastPaxos
