import LibFastPaxos.Config

/-!
The datagrams of libpaxos_priv.h. A packet keeps its `size` and `count` fields
next to the entries, since senders compute them and receivers loop on them.
The `type` field is the constructor of `PaxosData`.
-/

namespace LibFastPaxos

structure PrepareMsg where
  iid : Int
  ballot : Int
  deriving DecidableEq, Repr

structure PrepareBatchMsg where
  count : Int
  data : List PrepareMsg
  deriving DecidableEq, Repr

structure PromiseMsg where
  iid : Int
  ballot : Int
  valueBallot : Int
  valueSize : Int
  value : Bytes
  deriving DecidableEq, Repr

structure PromiseBatchMsg where
  acceptorId : Int
  count : Int
  data : List PromiseMsg
  deriving DecidableEq, Repr

structure AcceptMsg where
  iid : Int
  ballot : Int
  valueSize : Int
  proposerId : Int
  value : Bytes
  deriving DecidableEq, Repr

structure LearnMsg where
  acceptorId : Int
  iid : Int
  ballot : Int
  proposerId : Int
  valueSize : Int
  value : Bytes
  deriving DecidableEq, Repr

structure LearnerSyncMsg where
  count : Int
  ids : List Int
  deriving DecidableEq, Repr

structure AnyvalMsg where
  ballot : Int
  count : Int
  ids : List Int
  deriving DecidableEq, Repr

inductive PaxosData where
  | prepare (batch : PrepareBatchMsg)
  | accept (amsg : AcceptMsg)
  | lsync (lsmsg : LearnerSyncMsg)
  | promise (batch : PromiseBatchMsg)
  | learn (lmsg : LearnMsg)
  | anyval (avmsg : AnyvalMsg)
  deriving DecidableEq, Repr

/-- `size` counts the bytes of `data`. -/
structure PaxosMsg where
  size : Int
  data : PaxosData
  deriving DecidableEq, Repr

/-! The `sizeof` of each header; an `int` takes four bytes. -/

def sizeofPaxosMsg : Int := 8
def sizeofPrepareMsg : Int := 8
def sizeofPrepareBatchMsg : Int := 4
def sizeofPromiseMsg : Int := 16
def sizeofPromiseBatchMsg : Int := 8
def sizeofAcceptMsg : Int := 16
def sizeofLearnMsg : Int := 20
def sizeofLearnerSyncMsg : Int := 4
def sizeofAnyvalMsg : Int := 8
def sizeofInt : Int := 4

structure PrepareMsg.WellFormed (p : PrepareMsg) : Prop where
  iid_nonneg : 0 ≤ p.iid
  ballot_nonneg : 0 ≤ p.ballot

structure PrepareBatchMsg.WellFormed (b : PrepareBatchMsg) : Prop where
  count_eq : b.count = b.data.length
  entries : ∀ p ∈ b.data, p.WellFormed

structure AcceptMsg.WellFormed (m : AcceptMsg) : Prop where
  iid_nonneg : 0 ≤ m.iid
  ballot_nonneg : 0 ≤ m.ballot
  valueSize_eq : m.valueSize = m.value.length
  valueSize_le : m.valueSize ≤ paxosMaxValueSize

structure LearnerSyncMsg.WellFormed (m : LearnerSyncMsg) : Prop where
  count_eq : m.count = m.ids.length
  ids_nonneg : ∀ i ∈ m.ids, 0 ≤ i

structure AnyvalMsg.WellFormed (m : AnyvalMsg) : Prop where
  count_eq : m.count = m.ids.length
  ballot_nonneg : 0 ≤ m.ballot
  ids_nonneg : ∀ i ∈ m.ids, 0 ≤ i

instance (p : PrepareMsg) : Decidable p.WellFormed :=
  decidable_of_iff (0 ≤ p.iid ∧ 0 ≤ p.ballot) ⟨fun h => ⟨h.1, h.2⟩, fun h => ⟨h.1, h.2⟩⟩

instance (b : PrepareBatchMsg) : Decidable b.WellFormed :=
  decidable_of_iff (b.count = b.data.length ∧ ∀ p ∈ b.data, p.WellFormed)
    ⟨fun h => ⟨h.1, h.2⟩, fun h => ⟨h.1, h.2⟩⟩

instance (m : AcceptMsg) : Decidable m.WellFormed :=
  decidable_of_iff (0 ≤ m.iid ∧ 0 ≤ m.ballot ∧ m.valueSize = m.value.length ∧
      m.valueSize ≤ paxosMaxValueSize)
    ⟨fun h => ⟨h.1, h.2.1, h.2.2.1, h.2.2.2⟩, fun h => ⟨h.1, h.2, h.3, h.4⟩⟩

instance (m : LearnerSyncMsg) : Decidable m.WellFormed :=
  decidable_of_iff (m.count = m.ids.length ∧ ∀ i ∈ m.ids, 0 ≤ i)
    ⟨fun h => ⟨h.1, h.2⟩, fun h => ⟨h.1, h.2⟩⟩

instance (m : AnyvalMsg) : Decidable m.WellFormed :=
  decidable_of_iff (m.count = m.ids.length ∧ 0 ≤ m.ballot ∧ ∀ i ∈ m.ids, 0 ≤ i)
    ⟨fun h => ⟨h.1, h.2.1, h.2.2⟩, fun h => ⟨h.1, h.2, h.3⟩⟩

/-- What the acceptors' network carries; an acceptor ignores the other types. -/
def PaxosData.WellFormed : PaxosData → Prop
  | .prepare b => b.WellFormed
  | .accept m => m.WellFormed
  | .lsync m => m.WellFormed
  | .anyval m => m.WellFormed
  | .promise _ | .learn _ => True

instance : (data : PaxosData) → Decidable data.WellFormed
  | .prepare b => inferInstanceAs (Decidable b.WellFormed)
  | .accept m => inferInstanceAs (Decidable m.WellFormed)
  | .lsync m => inferInstanceAs (Decidable m.WellFormed)
  | .anyval m => inferInstanceAs (Decidable m.WellFormed)
  | .promise _ | .learn _ => isTrue trivial

/-! Packets with their counters filled in. -/

def preparePacket (data : List PrepareMsg) : PaxosMsg where
  size := sizeofPrepareBatchMsg + data.length * sizeofPrepareMsg
  data := .prepare { count := data.length, data := data }

def acceptPacket (amsg : AcceptMsg) : PaxosMsg where
  size := sizeofAcceptMsg + amsg.valueSize
  data := .accept amsg

def lsyncPacket (ids : List Int) : PaxosMsg where
  size := sizeofLearnerSyncMsg + ids.length * sizeofInt
  data := .lsync { count := ids.length, ids := ids }

def anyvalPacket (ballot : Int) (ids : List Int) : PaxosMsg where
  size := sizeofAnyvalMsg + ids.length * sizeofInt
  data := .anyval { ballot := ballot, count := ids.length, ids := ids }

instance (data : PaxosData) (P : PromiseBatchMsg → Prop) [DecidablePred P] :
    Decidable (∀ batch, data = .promise batch → P batch) :=
  match data with
  | .promise batch =>
      decidable_of_iff (P batch) ⟨fun h _ heq => by cases heq; exact h, fun h => h _ rfl⟩
  | .prepare _ | .accept _ | .lsync _ | .learn _ | .anyval _ => isTrue nofun

instance (data : PaxosData) (P : AcceptMsg → Prop) [DecidablePred P] :
    Decidable (∀ amsg, data = .accept amsg → P amsg) :=
  match data with
  | .accept amsg =>
      decidable_of_iff (P amsg) ⟨fun h _ heq => by cases heq; exact h, fun h => h _ rfl⟩
  | .prepare _ | .lsync _ | .promise _ | .learn _ | .anyval _ => isTrue nofun

/-- The accept is in one of the packets. -/
def Sends (sent : List PaxosMsg) (m : AcceptMsg) : Prop :=
  ∃ packet ∈ sent, packet.data = .accept m

instance (sent : List PaxosMsg) (P : AcceptMsg → Prop) [DecidablePred P] :
    Decidable (∀ m, Sends sent m → P m) :=
  decidable_of_iff (∀ packet ∈ sent, ∀ m, packet.data = .accept m → P m)
    ⟨fun h m ⟨packet, hp, hd⟩ => h packet hp m hd, fun h packet hp m hd => h m ⟨packet, hp, hd⟩⟩

section Sends

variable {sent sent' : List PaxosMsg} {m : AcceptMsg} {packet : PaxosMsg}

theorem sends_cons : Sends (packet :: sent) m ↔ packet.data = .accept m ∨ Sends sent m := by
  simp [Sends]

theorem Sends.mono (h : Sends sent m) (sub : sent ⊆ sent') : Sends sent' m := by
  obtain ⟨packet, hp, hd⟩ := h
  exact ⟨packet, sub hp, hd⟩

end Sends
end LibFastPaxos
