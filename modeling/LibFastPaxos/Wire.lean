import LibFastPaxos.Messages
import LibFastPaxos.Lib.Memory

/-!
The datagrams as bytes. A message is a row of 32-bit fields and then its entries or its
value; the receivers cast their buffer to the structs of libpaxos_priv.h and walk the
entries with an offset. An `int` is laid out as on a little-endian machine, and a read
outside the receive buffer has no result.
-/

namespace LibFastPaxos

open Memory

/-! ### The layout of each message -/

def paxosPrepare : Int := 1
def paxosAccept : Int := 2
def paxosLsync : Int := 3
def paxosPromise : Int := 4
def paxosLearn : Int := 5
def paxosAnyval : Int := 6

def PrepareMsg.fields (p : PrepareMsg) : List Int := [p.iid, p.ballot]

def PrepareMsg.bytes (p : PrepareMsg) : Bytes := ints p.fields

def PromiseMsg.fields (p : PromiseMsg) : List Int :=
  [p.iid, p.ballot, p.valueBallot, p.valueSize]

def PromiseMsg.bytes (p : PromiseMsg) : Bytes := ints p.fields ++ p.value

def PrepareBatchMsg.bytes (b : PrepareBatchMsg) : Bytes :=
  ints [b.count] ++ b.data.flatMap PrepareMsg.bytes

def PromiseBatchMsg.bytes (b : PromiseBatchMsg) : Bytes :=
  ints [b.acceptorId, b.count] ++ b.data.flatMap PromiseMsg.bytes

def AcceptMsg.fields (m : AcceptMsg) : List Int := [m.iid, m.ballot, m.valueSize, m.proposerId]

def AcceptMsg.bytes (m : AcceptMsg) : Bytes := ints m.fields ++ m.value

def LearnMsg.fields (m : LearnMsg) : List Int :=
  [m.acceptorId, m.iid, m.ballot, m.proposerId, m.valueSize]

def LearnMsg.bytes (m : LearnMsg) : Bytes := ints m.fields ++ m.value

def LearnerSyncMsg.bytes (m : LearnerSyncMsg) : Bytes := ints [m.count] ++ ints m.ids

def AnyvalMsg.bytes (m : AnyvalMsg) : Bytes := ints [m.ballot, m.count] ++ ints m.ids

def PaxosData.type : PaxosData → Int
  | .prepare _ => paxosPrepare
  | .accept _ => paxosAccept
  | .lsync _ => paxosLsync
  | .promise _ => paxosPromise
  | .learn _ => paxosLearn
  | .anyval _ => paxosAnyval

def PaxosData.bytes : PaxosData → Bytes
  | .prepare b => b.bytes
  | .accept m => m.bytes
  | .lsync m => m.bytes
  | .promise b => b.bytes
  | .learn m => m.bytes
  | .anyval m => m.bytes

def PaxosMsg.bytes (msg : PaxosMsg) : Bytes := ints [msg.size, msg.data.type] ++ msg.data.bytes

/-! ### What fits into the fields -/

def PrepareMsg.Fits (p : PrepareMsg) : Prop := ∀ x ∈ p.fields, FitsInt32 x

structure PromiseMsg.Fits (p : PromiseMsg) : Prop where
  fields : ∀ x ∈ p.fields, FitsInt32 x
  valueSize_eq : p.valueSize = p.value.length

structure PrepareBatchMsg.Fits (b : PrepareBatchMsg) : Prop where
  count : FitsInt32 b.count
  count_eq : b.count = b.data.length
  entries : ∀ p ∈ b.data, p.Fits

structure PromiseBatchMsg.Fits (b : PromiseBatchMsg) : Prop where
  acceptorId : FitsInt32 b.acceptorId
  count : FitsInt32 b.count
  count_eq : b.count = b.data.length
  entries : ∀ p ∈ b.data, p.Fits

structure AcceptMsg.Fits (m : AcceptMsg) : Prop where
  fields : ∀ x ∈ m.fields, FitsInt32 x
  valueSize_eq : m.valueSize = m.value.length

structure LearnMsg.Fits (m : LearnMsg) : Prop where
  fields : ∀ x ∈ m.fields, FitsInt32 x
  valueSize_eq : m.valueSize = m.value.length

structure LearnerSyncMsg.Fits (m : LearnerSyncMsg) : Prop where
  count : FitsInt32 m.count
  count_eq : m.count = m.ids.length
  ids : ∀ i ∈ m.ids, FitsInt32 i

structure AnyvalMsg.Fits (m : AnyvalMsg) : Prop where
  ballot : FitsInt32 m.ballot
  count : FitsInt32 m.count
  count_eq : m.count = m.ids.length
  ids : ∀ i ∈ m.ids, FitsInt32 i

def PaxosData.Fits : PaxosData → Prop
  | .prepare b => b.Fits
  | .accept m => m.Fits
  | .lsync m => m.Fits
  | .promise b => b.Fits
  | .learn m => m.Fits
  | .anyval m => m.Fits

/-! ### The receivers' view of a buffer -/

section Readers

variable (mem : Bytes) (off : Int)

def readPrepare : Option PrepareMsg :=
  (intAt mem off).bind fun iid =>
  (intAt mem (off + 4)).map fun ballot => ⟨iid, ballot⟩

/-- The value is copied later, and only for a promise that is stored. -/
def readPromise : Option PromiseMsg :=
  (intAt mem off).bind fun iid =>
  (intAt mem (off + 4)).bind fun ballot =>
  (intAt mem (off + 8)).bind fun valueBallot =>
  (intAt mem (off + 12)).map fun valueSize =>
    ⟨iid, ballot, valueBallot, valueSize, bytesAt mem (off + sizeofPromiseMsg) valueSize⟩

/-- The loop of `handle_prepare_batch`. -/
def readPrepareBatch : Option PrepareBatchMsg :=
  (intAt mem off).bind fun count =>
  (readAll readPrepare (fun _ => sizeofPrepareMsg) mem count.toNat
    (off + sizeofPrepareBatchMsg)).map fun data => ⟨count, data⟩

/-- The loop of `leader_handle_promise_msg`. -/
def readPromiseBatch : Option PromiseBatchMsg :=
  (intAt mem off).bind fun acceptorId =>
  (intAt mem (off + 4)).bind fun count =>
  (readAll readPromise (fun prom => sizeofPromiseMsg + prom.valueSize) mem count.toNat
    (off + sizeofPromiseBatchMsg)).map fun data => ⟨acceptorId, count, data⟩

def readAccept : Option AcceptMsg :=
  (intAt mem off).bind fun iid =>
  (intAt mem (off + 4)).bind fun ballot =>
  (intAt mem (off + 8)).bind fun valueSize =>
  (intAt mem (off + 12)).map fun proposerId =>
    ⟨iid, ballot, valueSize, proposerId, bytesAt mem (off + sizeofAcceptMsg) valueSize⟩

def readLearn : Option LearnMsg :=
  (intAt mem off).bind fun acceptorId =>
  (intAt mem (off + 4)).bind fun iid =>
  (intAt mem (off + 8)).bind fun ballot =>
  (intAt mem (off + 12)).bind fun proposerId =>
  (intAt mem (off + 16)).map fun valueSize =>
    ⟨acceptorId, iid, ballot, proposerId, valueSize,
      bytesAt mem (off + sizeofLearnMsg) valueSize⟩

def readLsync : Option LearnerSyncMsg :=
  (intAt mem off).bind fun count =>
  (readAll intAt (fun _ => sizeofInt) mem count.toNat (off + sizeofLearnerSyncMsg)).map
    fun ids => ⟨count, ids⟩

def readAnyval : Option AnyvalMsg :=
  (intAt mem off).bind fun ballot =>
  (intAt mem (off + 4)).bind fun count =>
  (readAll intAt (fun _ => sizeofInt) mem count.toNat (off + sizeofAnyvalMsg)).map
    fun ids => ⟨ballot, count, ids⟩

end Readers

/-! ### What is written is read back -/

section RoundTrip

variable {mem : Bytes} {off : Int}

theorem readPrepare_of_holds {p : PrepareMsg} (fits : p.Fits) (h : Holds mem off p.bytes) :
    readPrepare mem off = some p := by
  have hiid : intAt mem (off + 0) = some p.iid := h.intAt fits 0 rfl
  have hballot : intAt mem (off + 4) = some p.ballot := h.intAt fits 1 rfl
  rw [Int.add_zero] at hiid
  simp only [readPrepare, hiid, hballot, Option.bind_some, Option.map_some]

theorem readPromise_of_holds {p : PromiseMsg} (fits : p.Fits) (h : Holds mem off p.bytes) :
    readPromise mem off = some p := by
  have hiid : intAt mem (off + 0) = some p.iid := h.left.intAt fits.fields 0 rfl
  have hballot : intAt mem (off + 4) = some p.ballot := h.left.intAt fits.fields 1 rfl
  have hvalueBallot : intAt mem (off + 8) = some p.valueBallot := h.left.intAt fits.fields 2 rfl
  have hvalueSize : intAt mem (off + 12) = some p.valueSize := h.left.intAt fits.fields 3 rfl
  have hvalue : bytesAt mem (off + sizeofPromiseMsg) p.valueSize = p.value := by
    rw [fits.valueSize_eq]
    exact h.right.bytesAt
  rw [Int.add_zero] at hiid
  simp only [readPromise, hiid, hballot, hvalueBallot, hvalueSize, hvalue, Option.bind_some,
    Option.map_some]

theorem readAccept_of_holds {m : AcceptMsg} (fits : m.Fits) (h : Holds mem off m.bytes) :
    readAccept mem off = some m := by
  have hiid : intAt mem (off + 0) = some m.iid := h.left.intAt fits.fields 0 rfl
  have hballot : intAt mem (off + 4) = some m.ballot := h.left.intAt fits.fields 1 rfl
  have hvalueSize : intAt mem (off + 8) = some m.valueSize := h.left.intAt fits.fields 2 rfl
  have hproposer : intAt mem (off + 12) = some m.proposerId := h.left.intAt fits.fields 3 rfl
  have hvalue : bytesAt mem (off + sizeofAcceptMsg) m.valueSize = m.value := by
    rw [fits.valueSize_eq]
    exact h.right.bytesAt
  rw [Int.add_zero] at hiid
  simp only [readAccept, hiid, hballot, hvalueSize, hproposer, hvalue, Option.bind_some,
    Option.map_some]

theorem readLearn_of_holds {m : LearnMsg} (fits : m.Fits) (h : Holds mem off m.bytes) :
    readLearn mem off = some m := by
  have hacceptor : intAt mem (off + 0) = some m.acceptorId := h.left.intAt fits.fields 0 rfl
  have hiid : intAt mem (off + 4) = some m.iid := h.left.intAt fits.fields 1 rfl
  have hballot : intAt mem (off + 8) = some m.ballot := h.left.intAt fits.fields 2 rfl
  have hproposer : intAt mem (off + 12) = some m.proposerId := h.left.intAt fits.fields 3 rfl
  have hvalueSize : intAt mem (off + 16) = some m.valueSize := h.left.intAt fits.fields 4 rfl
  have hvalue : bytesAt mem (off + sizeofLearnMsg) m.valueSize = m.value := by
    rw [fits.valueSize_eq]
    exact h.right.bytesAt
  rw [Int.add_zero] at hacceptor
  simp only [readLearn, hacceptor, hiid, hballot, hproposer, hvalueSize, hvalue, Option.bind_some,
    Option.map_some]

theorem readPrepareBatch_of_holds {b : PrepareBatchMsg} (fits : b.Fits)
    (h : Holds mem off b.bytes) : readPrepareBatch mem off = some b := by
  have hcount : intAt mem (off + 0) = some b.count :=
    h.left.intAt (by simpa using fits.count) 0 rfl
  have hdata : readAll readPrepare (fun _ => sizeofPrepareMsg) mem b.data.length
      (off + sizeofPrepareBatchMsg) = some b.data :=
    readAll_of_holds PrepareMsg.bytes PrepareMsg.Fits
      (fun _ _ _ ok holds => readPrepare_of_holds ok holds) (fun _ _ => rfl) fits.entries h.right
  have hlen : b.count.toNat = b.data.length := by
    rw [fits.count_eq, Int.toNat_natCast]
  rw [Int.add_zero] at hcount
  simp only [readPrepareBatch, hcount, hlen, hdata, Option.bind_some, Option.map_some]

theorem readPromiseBatch_of_holds {b : PromiseBatchMsg} (fits : b.Fits)
    (h : Holds mem off b.bytes) : readPromiseBatch mem off = some b := by
  have hfields : ∀ x ∈ [b.acceptorId, b.count], FitsInt32 x := by
    simpa using ⟨fits.acceptorId, fits.count⟩
  have hacceptor : intAt mem (off + 0) = some b.acceptorId := h.left.intAt hfields 0 rfl
  have hcount : intAt mem (off + 4) = some b.count := h.left.intAt hfields 1 rfl
  have hsize : ∀ p : PromiseMsg, p.Fits →
      sizeofPromiseMsg + p.valueSize = (p.bytes.length : Int) := by
    intro p ok
    rw [PromiseMsg.bytes, List.length_append, ints_length, ok.valueSize_eq]
    rfl
  have hdata : readAll readPromise (fun prom => sizeofPromiseMsg + prom.valueSize) mem
      b.data.length (off + sizeofPromiseBatchMsg) = some b.data :=
    readAll_of_holds PromiseMsg.bytes PromiseMsg.Fits
      (fun _ _ _ ok holds => readPromise_of_holds ok holds) hsize fits.entries h.right
  have hlen : b.count.toNat = b.data.length := by
    rw [fits.count_eq, Int.toNat_natCast]
  rw [Int.add_zero] at hacceptor
  simp only [readPromiseBatch, hacceptor, hcount, hlen, hdata, Option.bind_some, Option.map_some]

/-- The ids of an lsync and of an anyval. -/
theorem readIds_of_holds {ids : List Int} (fits : ∀ i ∈ ids, FitsInt32 i)
    (h : Holds mem off (ints ids)) :
    readAll intAt (fun _ => sizeofInt) mem ids.length off = some ids := by
  refine readAll_of_holds (fun i => ints [i]) FitsInt32 ?_ (fun _ _ => rfl) fits ?_
  · intro mem off i ok holds
    have hi : intAt mem (off + 0) = some i := holds.intAt (by simpa using ok) 0 rfl
    rwa [Int.add_zero] at hi
  · simpa [ints] using h

theorem readLsync_of_holds {m : LearnerSyncMsg} (fits : m.Fits) (h : Holds mem off m.bytes) :
    readLsync mem off = some m := by
  have hcount : intAt mem (off + 0) = some m.count :=
    h.left.intAt (by simpa using fits.count) 0 rfl
  have hids : readAll intAt (fun _ => sizeofInt) mem m.ids.length (off + sizeofLearnerSyncMsg) =
      some m.ids := readIds_of_holds fits.ids h.right
  have hlen : m.count.toNat = m.ids.length := by
    rw [fits.count_eq, Int.toNat_natCast]
  rw [Int.add_zero] at hcount
  simp only [readLsync, hcount, hlen, hids, Option.bind_some, Option.map_some]

theorem readAnyval_of_holds {m : AnyvalMsg} (fits : m.Fits) (h : Holds mem off m.bytes) :
    readAnyval mem off = some m := by
  have hfields : ∀ x ∈ [m.ballot, m.count], FitsInt32 x := by
    simpa using ⟨fits.ballot, fits.count⟩
  have hballot : intAt mem (off + 0) = some m.ballot := h.left.intAt hfields 0 rfl
  have hcount : intAt mem (off + 4) = some m.count := h.left.intAt hfields 1 rfl
  have hids : readAll intAt (fun _ => sizeofInt) mem m.ids.length (off + sizeofAnyvalMsg) =
      some m.ids := readIds_of_holds fits.ids h.right
  have hlen : m.count.toNat = m.ids.length := by
    rw [fits.count_eq, Int.toNat_natCast]
  rw [Int.add_zero] at hballot
  simp only [readAnyval, hballot, hcount, hlen, hids, Option.bind_some, Option.map_some]

end RoundTrip

/-! ### Receive buffers -/

/-- One of the static buffers of `MAX_UDP_MSG_SIZE` bytes. -/
structure UdpBuffer where
  bytes : Bytes
  length_eq : (bytes.length : Int) = maxUdpMsgSize

structure Datagram where
  bytes : Bytes
  length_le : (bytes.length : Int) ≤ maxUdpMsgSize

/-- What the buffer holds after `recvfrom`: behind a short datagram the old bytes stay. -/
def UdpBuffer.receive (buf : UdpBuffer) (d : Datagram) : Bytes :=
  d.bytes ++ buf.bytes.drop d.bytes.length

/-- The bytes are those of the message, whose entries lie within them. -/
structure Datagram.Encodes (d : Datagram) (msg : PaxosMsg) : Prop where
  fits : msg.data.Fits
  size_eq : msg.size = d.bytes.length - sizeofPaxosMsg
  bytes : msg.bytes <+: d.bytes

/-- The ids that index the promises of a leader's record and the learns of a learner's. -/
def Config.IsAcceptor (cfg : Config) (id : Int) : Prop := 0 ≤ id ∧ id < cfg.nOfAcceptors

instance (cfg : Config) (id : Int) : Decidable (cfg.IsAcceptor id) :=
  inferInstanceAs (Decidable (_ ∧ _))

/-- An `int` in an unsigned comparison. -/
def sizeT (n : Int) : BitVec 64 := BitVec.ofInt 64 n

section Receive

variable {buf : UdpBuffer} {d : Datagram} {msg : PaxosMsg}

theorem receive_length (buf : UdpBuffer) (d : Datagram) :
    ((buf.receive d).length : Int) = maxUdpMsgSize := by
  have hbuf := buf.length_eq
  have hd := d.length_le
  simp only [UdpBuffer.receive, List.length_append, List.length_drop]
  omega

/-- The fields of a header are in the buffer. -/
theorem receive_int (buf : UdpBuffer) (d : Datagram) (off : Int) (low : 0 ≤ off)
    (high : off + 4 ≤ maxUdpMsgSize) : ∃ x, intAt (buf.receive d) off = some x :=
  intAt_of_le low (by rw [receive_length]; exact high)

theorem PaxosData.type_fits (data : PaxosData) : FitsInt32 data.type := by
  cases data <;> simp only [PaxosData.type] <;> decide

theorem Datagram.Encodes.holds (h : d.Encodes msg) (buf : UdpBuffer) :
    Holds (buf.receive d) 0 msg.bytes :=
  .of_isPrefix (h.bytes.trans (List.prefix_append _ _))

theorem Datagram.Encodes.length_le (h : d.Encodes msg) :
    sizeofPaxosMsg + (msg.data.bytes.length : Int) ≤ d.bytes.length := by
  have hle := h.bytes.length_le
  rw [PaxosMsg.bytes, List.length_append, ints_length] at hle
  simp only [List.length_cons, List.length_nil] at hle
  simp only [sizeofPaxosMsg]
  omega

theorem Datagram.Encodes.header (h : d.Encodes msg) (buf : UdpBuffer) :
    intAt (buf.receive d) 0 = some msg.size ∧
      intAt (buf.receive d) 4 = some msg.data.type ∧
      Holds (buf.receive d) sizeofPaxosMsg msg.data.bytes := by
  have hsize : FitsInt32 msg.size := by
    have hle := d.length_le
    have heq := h.size_eq
    simp only [maxUdpMsgSize, sizeofPaxosMsg] at hle heq
    exact ⟨by omega, by omega⟩
  have hfields : ∀ x ∈ [msg.size, msg.data.type], FitsInt32 x := by
    simpa using ⟨hsize, msg.data.type_fits⟩
  exact ⟨(h.holds buf).left.intAt hfields 0 rfl, (h.holds buf).left.intAt hfields 1 rfl,
    (h.holds buf).right⟩

theorem sizeT_eq_iff {size n : Int} (fits : FitsInt32 size) (low : 0 ≤ n)
    (high : n ≤ maxUdpMsgSize) :
    sizeT size = sizeT n - sizeT sizeofPaxosMsg ↔ size = n - sizeofPaxosMsg := by
  obtain ⟨hlow, hhigh⟩ := fits
  simp only [maxUdpMsgSize] at high
  have hsum : sizeT size = sizeT n - sizeT sizeofPaxosMsg ↔
      sizeT (size + sizeofPaxosMsg) = sizeT n := by
    simp only [sizeT, BitVec.ofInt_add]
    exact BitVec.eq_sub_iff_add_eq
  have hint : ∀ x : Int, -2147483648 ≤ x → x ≤ 4294967295 → (sizeT x).toInt = x := by
    intro x hx hx'
    exact BitVec.toInt_ofInt_eq_self (by decide)
      (by simp only [Nat.reduceSub]; omega)
      (by simp only [Nat.reduceSub]; omega)
  rw [hsum, ← BitVec.toInt_inj, hint _ (by simp only [sizeofPaxosMsg]; omega)
    (by simp only [sizeofPaxosMsg]; omega), hint n (by omega) (by omega)]
  constructor <;> intro h <;> omega

end Receive

end LibFastPaxos
