import LibFastPaxos.LeaderBallots
import LibFastPaxos.Spelling

/-!
`leader_send_buffer` as bytes. Prepare batches and anyval messages are built in it field by
field, with their size, count and ballot read back and raised in place, and a flush sends
what it holds; the accepts of phase 2 are built on the stack. The handlers take the state
they run in and change the buffer only.
-/

namespace LibFastPaxos

open Memory

abbrev LeaderBuffer := Sender

namespace LeaderBuffer

/-- `msg->size`. -/
def msgSize (b : LeaderBuffer) : Int := b.get 0

/-- `batch->count`. -/
def batchCount (b : LeaderBuffer) : Int := b.get 8

/-- `anymsg->ballot` and `anymsg->count`. -/
def anyBallot (b : LeaderBuffer) : Int := b.get 8
def anyCount (b : LeaderBuffer) : Int := b.get 12

/-- `flush_send_buffer`. -/
def flush (b : LeaderBuffer) : LeaderBuffer := b.send (sizeofPaxosMsg + b.msgSize)

def initPrepares (b : LeaderBuffer) : LeaderBuffer :=
  ((b.set 4 paxosPrepare).set 0 sizeofPrepareBatchMsg).set 8 0

/-- The entry, its count and its size. -/
def writePrepare (b : LeaderBuffer) (iid ballot : Int) : LeaderBuffer :=
  let prep := sizeofPaxosMsg + b.msgSize
  let b : LeaderBuffer := (b.set prep iid).set (prep + 4) ballot
  let b : LeaderBuffer := b.set 8 (b.batchCount + 1)
  b.set 0 (b.msgSize + sizeofPrepareMsg)

/-- `add_prepare_to_buffer`. -/
def addPrepare (b : LeaderBuffer) (iid ballot : Int) : LeaderBuffer :=
  let b := b.writePrepare iid ballot
  if b.msgSize + sizeofPaxosMsg + sizeofPrepareMsg > maxUdpMsgSize then b.flush.initPrepares else b

def initAnymsg (b : LeaderBuffer) : LeaderBuffer :=
  (((b.set 0 sizeofAnyvalMsg).set 4 paxosAnyval).set 12 0).set 8 (-1)

def raiseBallot (b : LeaderBuffer) (ballot : Int) : LeaderBuffer :=
  if ballot > b.anyBallot then b.set 8 ballot else b

/-- The id, its count and its size. -/
def writeId (b : LeaderBuffer) (iid : Int) : LeaderBuffer :=
  let b : LeaderBuffer := b.set (16 + 4 * b.anyCount) iid
  let b : LeaderBuffer := b.set 12 (b.anyCount + 1)
  b.set 0 (b.msgSize + sizeofInt)

/-- `append_anymsg_to_buffer`. -/
def appendId (b : LeaderBuffer) (iid : Int) : LeaderBuffer :=
  let b := b.writeId iid
  if b.msgSize + sizeofPaxosMsg + sizeofInt > maxUdpMsgSize then
    ((b.flush.set 12 0).set 0 sizeofAnyvalMsg).set 8 (-1)
  else b

end LeaderBuffer

/-! ### Prepare batches -/

section Prepares

variable {b : LeaderBuffer} {size : Int} {batch : PrepareBatchMsg} {s : LeaderState}

/-- The fields of a prepare packet. -/
def PrepareBatchMsg.row (size : Int) (batch : PrepareBatchMsg) : List Int :=
  [size, paxosPrepare, batch.count] ++ batch.data.flatMap PrepareMsg.fields

/-- The buffer holds the packet of this batch. -/
structure HoldsPrepares (b : LeaderBuffer) (size : Int) (batch : PrepareBatchMsg) : Prop where
  filled : b.Filled maxUdpMsgSize (batch.row size) []
  count_eq : batch.count = batch.data.length
  size_eq : size = sizeofPrepareBatchMsg + batch.data.length * sizeofPrepareMsg

theorem prepares_length (data : List PrepareMsg) :
    (data.flatMap PrepareMsg.fields).length = 2 * data.length := by
  induction data with
  | nil => rfl
  | cons p data ih =>
      rw [List.flatMap_cons, List.length_append, ih, List.length_cons]
      simp only [PrepareMsg.fields, List.length_cons, List.length_nil]
      omega

theorem prepares_bytes (data : List PrepareMsg) :
    data.flatMap PrepareMsg.bytes = ints (data.flatMap PrepareMsg.fields) := by
  induction data with
  | nil => rfl
  | cons p data ih =>
      rw [List.flatMap_cons, List.flatMap_cons, ints_append, ih]
      rfl

theorem HoldsPrepares.row_length (h : HoldsPrepares b size batch) :
    4 * ((batch.row size).length : Int) = sizeofPaxosMsg + size := by
  have hsize := h.size_eq
  simp only [PrepareBatchMsg.row, List.length_append, prepares_length, List.length_cons,
    List.length_nil, sizeofPaxosMsg, sizeofPrepareBatchMsg, sizeofPrepareMsg] at hsize ⊢
  omega

/-- What lies in the buffer fits in it. -/
theorem HoldsPrepares.fits (h : HoldsPrepares b size batch) : FitsInt32 size ∧
    FitsInt32 batch.count := by
  have hle := h.filled.fits
  have hlen := h.row_length
  have hsize := h.size_eq
  have hcount := h.count_eq
  simp only [sizeofPaxosMsg, sizeofPrepareBatchMsg, sizeofPrepareMsg, maxUdpMsgSize,
    List.length_nil] at hle hlen hsize
  exact ⟨⟨by omega, by omega⟩, ⟨by omega, by omega⟩⟩

theorem HoldsPrepares.msgSize (h : HoldsPrepares b size batch) : b.msgSize = size :=
  h.filled.get (k := 0) rfl rfl h.fits.1

theorem HoldsPrepares.batchCount (h : HoldsPrepares b size batch) : b.batchCount = batch.count :=
  h.filled.get (k := 2) rfl rfl h.fits.2

theorem HoldsPrepares.spelled (h : HoldsPrepares b size batch) :
    Spelled (ints (batch.row size)) { size := size, data := .prepare batch } where
  bytes_eq := by
    rw [PaxosMsg.bytes, PaxosData.bytes, PrepareBatchMsg.bytes, prepares_bytes, ← ints_append,
      ← ints_append]
    rfl
  size_eq := by
    have hsize := h.size_eq
    simp only [PaxosData.bytes, PrepareBatchMsg.bytes, prepares_bytes, List.length_append,
      ints_length, prepares_length, List.length_singleton, sizeofPrepareBatchMsg,
      sizeofPrepareMsg] at hsize ⊢
    omega
  sized := h.count_eq
  room := by
    rw [← h.row_length]
    exact Int.le_trans (Int.le_of_eq (Int.add_zero _).symm) h.filled.fits

/-- A flush sends the batch. -/
theorem HoldsPrepares.flush (h : HoldsPrepares b size batch) {packets : List PaxosMsg}
    (sent : Spells b.sent packets) :
    Spells b.flush.sent ({ size := size, data := .prepare batch } :: packets) := by
  have hlen : sizeofPaxosMsg + b.msgSize =
      4 * ((batch.row size).length : Int) + ([] : Bytes).length := by
    rw [h.msgSize, h.row_length]
    exact (Int.add_zero _).symm
  rw [LeaderBuffer.flush, h.filled.sent hlen, List.append_nil]
  exact .cons h.spelled sent

theorem initPrepares_holds (length : (b.bytes.length : Int) = maxUdpMsgSize) :
    HoldsPrepares b.initPrepares sizeofPrepareBatchMsg { count := 0, data := [] } := by
  obtain ⟨xs, hlen, hxs⟩ := Sender.exists_filled 3 length (show (4 : Int) * 3 ≤ 9000 by decide)
  match xs, hlen with
  | [x₀, x₁, x₂], _ =>
      have htype := hxs.set (k := 1) (Nat.one_lt_succ_succ 1) rfl paxosPrepare
      have hsize := htype.set (k := 0) (Nat.zero_lt_succ 2) rfl sizeofPrepareBatchMsg
      exact ⟨hsize.set (k := 2) (Nat.lt_add_one 2) rfl 0, rfl, rfl⟩

/-- The entry goes behind the others, with its count and its size. -/
theorem HoldsPrepares.writePrepare (h : HoldsPrepares b size batch) (iid ballot : Int)
    (room : sizeofPaxosMsg + size + sizeofPrepareMsg ≤ maxUdpMsgSize) :
    HoldsPrepares (b.writePrepare iid ballot) (size + sizeofPrepareMsg)
      { count := batch.count + 1, data := batch.data ++ [⟨iid, ballot⟩] } := by
  have hlen := h.row_length
  have hfits := h.fits
  have hsize := h.size_eq
  have hcount := h.count_eq
  simp only [sizeofPrepareMsg] at room
  have hiid := h.filled.push (x := iid) hlen.symm (by omega)
  have hbehind : sizeofPaxosMsg + size + 4 =
      4 * ((batch.row size ++ [iid]).length : Int) := by
    rw [List.length_append, List.length_singleton]
    omega
  have hballot := hiid.push hbehind (by omega) ballot
  have hrow : batch.row size ++ [iid] ++ [ballot] = PrepareBatchMsg.row size
      { count := batch.count, data := batch.data ++ [⟨iid, ballot⟩] } := by
    simp [PrepareBatchMsg.row, PrepareMsg.fields]
  rw [hrow] at hballot
  have hraised := hballot.raise (k := 2) rfl rfl hfits.2 1
  have hdone := hraised.raise (k := 0) rfl rfl hfits.1 sizeofPrepareMsg
  refine ⟨?_, ?_, ?_⟩
  · simp only [LeaderBuffer.writePrepare, h.msgSize]
    exact hdone
  · simp only [List.length_append, List.length_singleton]
    omega
  · simp only [List.length_append, List.length_singleton, sizeofPrepareMsg] at hsize ⊢
    omega

/-- The state and the buffer while prepares are added. -/
structure PreparesSpelled (s : LeaderState) (b : LeaderBuffer) : Prop where
  held : HoldsPrepares b s.msgSize s.prepares
  room : sizeofPaxosMsg + s.msgSize + sizeofPrepareMsg ≤ maxUdpMsgSize
  sent : Spells b.sent s.sent

/-- The records and counters do not matter. -/
theorem PreparesSpelled.congr {t : LeaderState} (h : PreparesSpelled s b)
    (msgSize : t.msgSize = s.msgSize) (prepares : t.prepares = s.prepares)
    (sent : t.sent = s.sent) : PreparesSpelled t b := by
  refine ⟨?_, ?_, ?_⟩
  · rw [msgSize, prepares]
    exact h.held
  · rw [msgSize]
    exact h.room
  · rw [sent]
    exact h.sent

theorem initPrepares_spelled (length : (b.bytes.length : Int) = maxUdpMsgSize)
    (sent : Spells b.sent s.sent) : PreparesSpelled s.initPrepares b.initPrepares :=
  ⟨initPrepares_holds length, show (8 : Int) + 4 + 8 ≤ 9000 by decide, sent⟩

theorem PreparesSpelled.flush (h : PreparesSpelled s b) :
    PreparesSpelled s.flushPrepares b.flush :=
  ⟨⟨h.held.filled.send _, h.held.count_eq, h.held.size_eq⟩, h.room, h.held.flush h.sent⟩

theorem PreparesSpelled.addPrepare (h : PreparesSpelled s b) (iid ballot : Int) :
    PreparesSpelled (addPrepareToBuffer s iid ballot) (b.addPrepare iid ballot) := by
  have hwritten := h.held.writePrepare iid ballot h.room
  simp only [LeaderBuffer.addPrepare, addPrepareToBuffer, hwritten.msgSize]
  split
  · next full =>
      exact initPrepares_spelled hwritten.filled.length (hwritten.flush h.sent)
  · next room =>
      refine ⟨hwritten, ?_, h.sent⟩
      dsimp only at room ⊢
      omega

end Prepares

/-! ### Anyval messages -/

section Anyvals

variable {b : LeaderBuffer} {size : Int} {av : AnyvalMsg} {s : LeaderState}

/-- The fields of an anyval packet. -/
def AnyvalMsg.row (size : Int) (av : AnyvalMsg) : List Int :=
  [size, paxosAnyval, av.ballot, av.count] ++ av.ids

/-- The buffer holds the packet of this message. -/
structure HoldsAnymsg (b : LeaderBuffer) (size : Int) (av : AnyvalMsg) : Prop where
  filled : b.Filled maxUdpMsgSize (av.row size) []
  count_eq : av.count = av.ids.length
  size_eq : size = sizeofAnyvalMsg + av.ids.length * sizeofInt
  ballot_fits : FitsInt32 av.ballot

theorem HoldsAnymsg.row_length (h : HoldsAnymsg b size av) :
    4 * ((av.row size).length : Int) = sizeofPaxosMsg + size := by
  have hsize := h.size_eq
  simp only [AnyvalMsg.row, List.length_append, List.length_cons, List.length_nil, sizeofPaxosMsg,
    sizeofAnyvalMsg, sizeofInt] at hsize ⊢
  omega

theorem HoldsAnymsg.fits (h : HoldsAnymsg b size av) : FitsInt32 size ∧ FitsInt32 av.count := by
  have hle := h.filled.fits
  have hlen := h.row_length
  have hsize := h.size_eq
  have hcount := h.count_eq
  simp only [sizeofPaxosMsg, sizeofAnyvalMsg, sizeofInt, maxUdpMsgSize, List.length_nil]
    at hle hlen hsize
  exact ⟨⟨by omega, by omega⟩, ⟨by omega, by omega⟩⟩

theorem HoldsAnymsg.msgSize (h : HoldsAnymsg b size av) : b.msgSize = size :=
  h.filled.get (k := 0) rfl rfl h.fits.1

theorem HoldsAnymsg.anyBallot (h : HoldsAnymsg b size av) : b.anyBallot = av.ballot :=
  h.filled.get (k := 2) rfl rfl h.ballot_fits

theorem HoldsAnymsg.anyCount (h : HoldsAnymsg b size av) : b.anyCount = av.count :=
  h.filled.get (k := 3) rfl rfl h.fits.2

theorem HoldsAnymsg.spelled (h : HoldsAnymsg b size av) :
    Spelled (ints (av.row size)) { size := size, data := .anyval av } where
  bytes_eq := by
    rw [PaxosMsg.bytes, PaxosData.bytes, AnyvalMsg.bytes, ← ints_append, ← ints_append]
    rfl
  size_eq := by
    have hsize := h.size_eq
    simp only [PaxosData.bytes, AnyvalMsg.bytes, List.length_append, ints_length,
      List.length_cons, List.length_nil, sizeofAnyvalMsg, sizeofInt] at hsize ⊢
    omega
  sized := h.count_eq
  room := by
    rw [← h.row_length]
    exact Int.le_trans (Int.le_of_eq (Int.add_zero _).symm) h.filled.fits

theorem HoldsAnymsg.flush (h : HoldsAnymsg b size av) {packets : List PaxosMsg}
    (sent : Spells b.sent packets) :
    Spells b.flush.sent ({ size := size, data := .anyval av } :: packets) := by
  have hlen : sizeofPaxosMsg + b.msgSize =
      4 * ((av.row size).length : Int) + ([] : Bytes).length := by
    rw [h.msgSize, h.row_length]
    exact (Int.add_zero _).symm
  rw [LeaderBuffer.flush, h.filled.sent hlen, List.append_nil]
  exact .cons h.spelled sent

theorem initAnymsg_holds (length : (b.bytes.length : Int) = maxUdpMsgSize) :
    HoldsAnymsg b.initAnymsg sizeofAnyvalMsg { ballot := -1, count := 0, ids := [] } := by
  obtain ⟨xs, hlen, hxs⟩ := Sender.exists_filled 4 length (show (4 : Int) * 4 ≤ 9000 by decide)
  match xs, hlen with
  | [x₀, x₁, x₂, x₃], _ =>
      have hsize := hxs.set (k := 0) (Nat.zero_lt_succ 3) rfl sizeofAnyvalMsg
      have htype := hsize.set (k := 1) (Nat.one_lt_succ_succ 2) rfl paxosAnyval
      have hcount := htype.set (k := 3) (Nat.lt_add_one 3) rfl 0
      exact ⟨hcount.set (k := 2) (show 2 < 4 by decide) rfl (-1), rfl, rfl, by decide⟩

/-- An empty message again, over what was sent. -/
theorem HoldsAnymsg.cleared (h : HoldsAnymsg b size av) :
    HoldsAnymsg (((b.set 12 0).set 0 sizeofAnyvalMsg).set 8 (-1)) sizeofAnyvalMsg
      { ballot := -1, count := 0, ids := [] } := by
  have hcount := h.filled.front.set (k := 3) (Nat.lt_add_one 3) rfl 0
  have hsize := hcount.set (k := 0) (Nat.zero_lt_succ 3) rfl sizeofAnyvalMsg
  exact ⟨hsize.set (k := 2) (show 2 < 4 by decide) rfl (-1), rfl, rfl, by decide⟩

theorem HoldsAnymsg.raiseBallot (h : HoldsAnymsg b size av) {ballot : Int}
    (fits : FitsInt32 ballot) :
    HoldsAnymsg (b.raiseBallot ballot) size
      (if ballot > av.ballot then { av with ballot := ballot } else av) := by
  have hk : 2 < (av.row size).length := by
    rw [AnyvalMsg.row, List.length_append]
    exact Nat.lt_add_right _ (show 2 < 4 by decide)
  rw [LeaderBuffer.raiseBallot, h.anyBallot]
  split
  · exact ⟨h.filled.set hk rfl ballot, h.count_eq, h.size_eq, fits⟩
  · exact h

theorem HoldsAnymsg.writeId (h : HoldsAnymsg b size av) (iid : Int)
    (room : sizeofPaxosMsg + size + sizeofInt ≤ maxUdpMsgSize) :
    HoldsAnymsg (b.writeId iid) (size + sizeofInt)
      { av with count := av.count + 1, ids := av.ids ++ [iid] } := by
  have hlen := h.row_length
  have hfits := h.fits
  have hsize := h.size_eq
  have hcount := h.count_eq
  simp only [sizeofInt, sizeofAnyvalMsg, sizeofPaxosMsg] at room hsize hlen
  have hbehind : 16 + 4 * av.count = 4 * ((av.row size).length : Int) := by omega
  have hid := h.filled.push hbehind (by omega) iid
  have hrow : av.row size ++ [iid] = AnyvalMsg.row size { av with ids := av.ids ++ [iid] } := by
    simp [AnyvalMsg.row]
  rw [hrow] at hid
  have hraised := hid.raise (k := 3) rfl rfl hfits.2 1
  have hdone := hraised.raise (k := 0) rfl rfl hfits.1 sizeofInt
  refine ⟨?_, ?_, ?_, h.ballot_fits⟩
  · simp only [LeaderBuffer.writeId, h.anyCount]
    exact hdone
  · simp only [List.length_append, List.length_singleton]
    omega
  · simp only [List.length_append, List.length_singleton, sizeofInt, sizeofAnyvalMsg]
    omega

/-- The state and the buffer while instances are added. -/
structure AnymsgSpelled (s : LeaderState) (b : LeaderBuffer) : Prop where
  held : HoldsAnymsg b s.msgSize s.anymsg
  room : sizeofPaxosMsg + s.msgSize + sizeofInt ≤ maxUdpMsgSize
  sent : Spells b.sent s.sent

theorem initAnymsg_spelled (length : (b.bytes.length : Int) = maxUdpMsgSize)
    (sent : Spells b.sent s.sent) : AnymsgSpelled s.initAnymsg b.initAnymsg :=
  ⟨initAnymsg_holds length, show (8 : Int) + 8 + 4 ≤ 9000 by decide, sent⟩

theorem AnymsgSpelled.flush (h : AnymsgSpelled s b) : AnymsgSpelled s.flushAnymsg b.flush :=
  ⟨⟨h.held.filled.send _, h.held.count_eq, h.held.size_eq, h.held.ballot_fits⟩, h.room,
    h.held.flush h.sent⟩

theorem AnymsgSpelled.raiseBallot (h : AnymsgSpelled s b) {ballot : Int}
    (fits : FitsInt32 ballot) :
    AnymsgSpelled
      (if ballot > s.anymsg.ballot then { s with anymsg := { s.anymsg with ballot := ballot } }
        else s) (b.raiseBallot ballot) := by
  have hraised := h.held.raiseBallot fits
  have hsent : (b.raiseBallot ballot).sent = b.sent := by
    simp only [LeaderBuffer.raiseBallot]
    split <;> rfl
  split
  · next above =>
      rw [if_pos above] at hraised
      exact ⟨hraised, h.room, hsent ▸ h.sent⟩
  · next below =>
      rw [if_neg below] at hraised
      exact ⟨hraised, h.room, hsent ▸ h.sent⟩

theorem AnymsgSpelled.appendId (h : AnymsgSpelled s b) (iid : Int) :
    AnymsgSpelled (appendAnymsgToBuffer s iid) (b.appendId iid) := by
  have hwritten := h.held.writeId iid h.room
  simp only [LeaderBuffer.appendId, appendAnymsgToBuffer, hwritten.msgSize]
  split
  · next full =>
      have hflushed : HoldsAnymsg (b.writeId iid).flush (s.msgSize + sizeofInt)
          { s.anymsg with count := s.anymsg.count + 1, ids := s.anymsg.ids ++ [iid] } :=
        ⟨hwritten.filled.send _, hwritten.count_eq, hwritten.size_eq, hwritten.ballot_fits⟩
      exact ⟨hflushed.cleared, show (8 : Int) + 8 + 4 ≤ 9000 by decide, hwritten.flush h.sent⟩
  · next room =>
      refine ⟨hwritten, ?_, h.sent⟩
      dsimp only at room ⊢
      omega

end Anyvals
end LibFastPaxos
