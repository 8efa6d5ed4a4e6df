import LibFastPaxos.LearnerRetransmission
import LibFastPaxos.SystemInvariant
import LibFastPaxos.Spelling
import LibFastPaxos.Lib.Refinement

/-!
`lear_send_buffer` as bytes: `ask_retransmission` appends the ids that it asks for, counts
them in the buffer and sends so many bytes as its own counter says. The datagrams spell
the lsync packets of the learner.
-/

namespace LibFastPaxos

open Memory Transition

/-- `lear_send_buffer` and, while ids are added, the local `buffer_size`. -/
structure LearnerBuffer extends Sender where
  bufferSize : Int

namespace LearnerBuffer

/-- `lsync->count`. -/
def count (b : LearnerBuffer) : Int := b.get 8

def setInt (b : LearnerBuffer) (off x : Int) : LearnerBuffer := { b with toSender := b.set off x }

/-- An empty lsync behind the header. -/
def reset (b : LearnerBuffer) : LearnerBuffer :=
  { b.setInt 8 0 with bufferSize := sizeofLearnerSyncMsg + sizeofPaxosMsg }

def flush (b : LearnerBuffer) : LearnerBuffer :=
  { b with toSender := (b.set 0 (b.bufferSize - sizeofPaxosMsg)).send b.bufferSize }

/-- The id, the count and `buffer_size`. -/
def writeId (b : LearnerBuffer) (i : Int) : LearnerBuffer :=
  let b := b.setInt (12 + 4 * b.count) i
  { b.setInt 8 (b.count + 1) with bufferSize := b.bufferSize + sizeofInt }

variable (cfg : Config)

/-- The body of the loop of `ask_retransmission`. -/
def askInstance (acc : LearnerState × List Int) (b : LearnerBuffer) (i : Int) : LearnerBuffer :=
  let r := acc.1.slot cfg i
  if (r.iid = i ∧ isClosed r = false) ∨ r.iid < i then
    let b := b.writeId i
    if maxUdpMsgSize - b.bufferSize < sizeofInt then b.flush.reset else b
  else b

def askRetransmission (s : LearnerState) (b : LearnerBuffer) : LearnerBuffer :=
  let b := (b.setInt 4 paxosLsync).reset
  let count := (s.highestSeen - (s.highestDelivered + 1)).toNat
  let missing := (List.range count).map fun (n : Nat) => s.highestDelivered + 1 + n
  let b : LearnerBuffer := (missing.foldl
    (sideBySide (LibFastPaxos.askInstance cfg) (askInstance cfg)) ((s, []), b)).2
  if b.count > 0 then b.flush else b

def lsyncCheck (s : LearnerState) (b : LearnerBuffer) : LearnerBuffer :=
  if s.highestSeen > s.highestDelivered then askRetransmission cfg s b else b

end LearnerBuffer

section Asks

variable {cfg : Config} {b : LearnerBuffer} {ids : List Int} {packets : List PaxosMsg}
  {s : LearnerState}

/-- The fields of an lsync packet; the size is set when it is sent. -/
def lsyncRow (size : Int) (ids : List Int) : List Int :=
  [size, paxosLsync, (ids.length : Int)] ++ ids

/-- The buffer holds an lsync for these ids. -/
structure HoldsLsync (b : LearnerBuffer) (ids : List Int) : Prop where
  filled : ∃ size, b.Filled maxUdpMsgSize (lsyncRow size ids) []
  bufferSize : b.bufferSize = sizeofLearnerSyncMsg + sizeofPaxosMsg + ids.length * sizeofInt

theorem lsyncRow_length (size : Int) (ids : List Int) :
    4 * ((lsyncRow size ids).length : Int) =
      sizeofLearnerSyncMsg + sizeofPaxosMsg + ids.length * sizeofInt := by
  simp only [lsyncRow, List.length_append, List.length_cons, List.length_nil,
    sizeofLearnerSyncMsg, sizeofPaxosMsg, sizeofInt]
  omega

theorem HoldsLsync.room (h : HoldsLsync b ids) : b.bufferSize ≤ maxUdpMsgSize := by
  obtain ⟨size, hfilled⟩ := h.filled
  have hle := hfilled.fits
  rw [lsyncRow_length, ← h.bufferSize] at hle
  exact Int.le_trans (Int.le_of_eq (Int.add_zero _).symm) hle

theorem HoldsLsync.count_fits (h : HoldsLsync b ids) : FitsInt32 ids.length := by
  have hroom := h.room
  rw [h.bufferSize] at hroom
  simp only [sizeofLearnerSyncMsg, sizeofPaxosMsg, sizeofInt, maxUdpMsgSize] at hroom
  exact ⟨by omega, by omega⟩

theorem HoldsLsync.count (h : HoldsLsync b ids) : b.count = ids.length := by
  obtain ⟨size, hfilled⟩ := h.filled
  exact hfilled.get (k := 2) rfl rfl h.count_fits

theorem lsync_spelled (ids : List Int)
    (room : sizeofPaxosMsg + (lsyncPacket ids).size ≤ maxUdpMsgSize) :
    Spelled (ints (lsyncRow (lsyncPacket ids).size ids)) (lsyncPacket ids) where
  bytes_eq := by
    rw [PaxosMsg.bytes, lsyncPacket, PaxosData.bytes, LearnerSyncMsg.bytes, ← ints_append,
      ← ints_append]
    rfl
  size_eq := by
    simp only [lsyncPacket, PaxosData.bytes, LearnerSyncMsg.bytes, List.length_append,
      ints_length, List.length_singleton, sizeofLearnerSyncMsg, sizeofInt]
    omega
  sized := rfl
  room := room

/-- The size is set and the lsync is sent. -/
theorem HoldsLsync.flush (h : HoldsLsync b ids) (sent : Spells b.sent packets) :
    HoldsLsync b.flush ids ∧ Spells b.flush.sent (lsyncPacket ids :: packets) := by
  obtain ⟨size, hfilled⟩ := h.filled
  have hroom := h.room
  have hbuffer := h.bufferSize
  have hsize : b.bufferSize - sizeofPaxosMsg = (lsyncPacket ids).size := by
    simp only [lsyncPacket]
    omega
  have hset := hfilled.set (k := 0) (Nat.zero_lt_succ _) rfl (b.bufferSize - sizeofPaxosMsg)
  have hlen : b.bufferSize =
      4 * ((lsyncRow (b.bufferSize - sizeofPaxosMsg) ids).length : Int) + ([] : Bytes).length := by
    rw [lsyncRow_length, hbuffer]
    exact (Int.add_zero _).symm
  refine ⟨⟨⟨_, hset.send b.bufferSize⟩, hbuffer⟩, ?_⟩
  have hflush : b.flush.sent = ints (lsyncRow (lsyncPacket ids).size ids) :: b.sent := by
    rw [← hsize]
    exact (hset.sent hlen).trans (congrArg (· :: b.sent) (List.append_nil _))
  rw [hflush]
  refine .cons (lsync_spelled ids ?_) sent
  rw [← hsize]
  omega

theorem HoldsLsync.reset (h : HoldsLsync b ids) : HoldsLsync b.reset [] := by
  obtain ⟨size, hfilled⟩ := h.filled
  have hfront : b.Filled maxUdpMsgSize [size, paxosLsync, (ids.length : Int)] [] := hfilled.front
  exact ⟨⟨size, hfront.set (k := 2) (Nat.lt_add_one 2) rfl 0⟩, rfl⟩

theorem HoldsLsync.writeId (h : HoldsLsync b ids) (i : Int)
    (room : b.bufferSize + sizeofInt ≤ maxUdpMsgSize) : HoldsLsync (b.writeId i) (ids ++ [i]) := by
  obtain ⟨size, hfilled⟩ := h.filled
  have hbuffer := h.bufferSize
  have hlen := lsyncRow_length size ids
  simp only [sizeofLearnerSyncMsg, sizeofPaxosMsg, sizeofInt] at hbuffer hlen room
  have hbehind : 12 + 4 * b.count = 4 * ((lsyncRow size ids).length : Int) := by
    rw [h.count]
    omega
  have hid := hfilled.push hbehind (by rw [hbehind]; omega) i
  have hk : 2 < (lsyncRow size ids ++ [i]).length := by
    simp only [lsyncRow, List.length_append, List.length_cons, List.length_nil]
    omega
  have hraised := hid.raise (k := 2) rfl rfl h.count_fits 1
  refine ⟨⟨size, ?_⟩, ?_⟩
  · have hrow : (lsyncRow size ids ++ [i]).set 2 ((ids.length : Int) + 1) =
        lsyncRow size (ids ++ [i]) := by
      simp [lsyncRow]
    rw [hrow] at hraised
    exact hraised
  · have hsame : (b.writeId i).bufferSize = b.bufferSize + 4 := rfl
    simp only [hsame, hbuffer, List.length_append, List.length_singleton, sizeofLearnerSyncMsg,
      sizeofPaxosMsg, sizeofInt]
    omega

/-- The state with its ids and the buffer in the loop. -/
structure AsksSpelled (acc : LearnerState × List Int) (b : LearnerBuffer) : Prop where
  held : HoldsLsync b acc.2
  room : b.bufferSize + sizeofInt ≤ maxUdpMsgSize
  sent : Spells b.sent acc.1.sent

theorem AsksSpelled.askInstance {acc : LearnerState × List Int} (h : AsksSpelled acc b) (i : Int) :
    AsksSpelled (askInstance cfg acc i) (b.askInstance cfg acc i) := by
  have hwritten := h.held.writeId i h.room
  have hbuffer := hwritten.bufferSize
  simp only [LibFastPaxos.askInstance, LearnerBuffer.askInstance]
  rw [← hbuffer]
  split
  · split
    · next full =>
        obtain ⟨hheld, hsent⟩ := hwritten.flush h.sent
        exact ⟨hheld.reset, show (12 : Int) + 4 ≤ 9000 by decide, hsent⟩
    · next room => exact ⟨hwritten, by omega, h.sent⟩
  · exact h

/-- What is left is sent at the end. -/
theorem AsksSpelled.close {acc : LearnerState × List Int} (h : AsksSpelled acc b) :
    (((if b.count > 0 then b.flush else b).bytes.length : Nat) : Int) = maxUdpMsgSize ∧
      Spells (if b.count > 0 then b.flush else b).sent
        (if acc.2.length > 0 then { acc.1 with sent := lsyncPacket acc.2 :: acc.1.sent }
          else acc.1).sent := by
  have hcount := h.held.count
  split
  · next pos =>
      rw [if_pos (show acc.2.length > 0 by omega)]
      obtain ⟨hheld, hsent⟩ := h.held.flush h.sent
      obtain ⟨_, hfilled⟩ := hheld.filled
      exact ⟨hfilled.length, hsent⟩
  · next zero =>
      rw [if_neg (show ¬ acc.2.length > 0 by omega)]
      obtain ⟨_, hfilled⟩ := h.held.filled
      exact ⟨hfilled.length, h.sent⟩

theorem lsyncCheck_spelled (length : (b.bytes.length : Int) = maxUdpMsgSize)
    (sent : Spells b.sent s.sent) :
    ((b.lsyncCheck cfg s).bytes.length : Int) = maxUdpMsgSize ∧
      Spells (b.lsyncCheck cfg s).sent (lsyncCheck cfg s).sent := by
  simp only [LibFastPaxos.lsyncCheck, LearnerBuffer.lsyncCheck]
  split
  · obtain ⟨xs, hlen, hxs⟩ := Sender.exists_filled 3 length (show (4 : Int) * 3 ≤ 9000 by decide)
    obtain ⟨x₀, x₁, x₂, rfl⟩ := List.length_eq_three.mp hlen
    have htype := hxs.set (k := 1) (Nat.one_lt_succ_succ 1) rfl paxosLsync
    have hcount := htype.set (k := 2) (Nat.lt_add_one 2) rfl 0
    have hinit : AsksSpelled (s, []) (b.setInt 4 paxosLsync).reset :=
      ⟨⟨⟨x₀, hcount⟩, rfl⟩, show (12 : Int) + 4 ≤ 9000 by decide, sent⟩
    have hloop : ∀ is : List Int,
        AsksSpelled (is.foldl (LibFastPaxos.askInstance cfg) (s, []))
          (is.foldl (sideBySide (LibFastPaxos.askInstance cfg)
            (LearnerBuffer.askInstance cfg)) ((s, []), (b.setInt 4 paxosLsync).reset)).2 :=
      fun is => foldl_sideBySide AsksSpelled (fun _ _ i _ h => h.askInstance i) hinit
    simp only [LibFastPaxos.askRetransmission, LearnerBuffer.askRetransmission]
    have hdone := hloop ((List.range (s.highestSeen - (s.highestDelivered + 1)).toNat).map
      fun (n : Nat) => s.highestDelivered + 1 + n)
    generalize List.foldl (LibFastPaxos.askInstance cfg) (s, []) _ = acc at hdone ⊢
    generalize (List.foldl (sideBySide (LibFastPaxos.askInstance cfg)
      (LearnerBuffer.askInstance cfg)) _ _).2 = c at hdone ⊢
    exact hdone.close
  · exact ⟨length, sent⟩

/-! ### Runs -/

/-- State and buffer take the event. -/
def LearnerBuffer.event (cfg : Config) (s : LearnerState) (b : LearnerBuffer) :
    LearnerEvent → LearnerBuffer
  | .learn _ => b
  | .lsyncTimer => b.lsyncCheck cfg s

/-- Between two events. -/
structure LearnerSpelled (s : LearnerState) (b : LearnerBuffer) : Prop where
  length : (b.bytes.length : Int) = maxUdpMsgSize
  sent : Spells b.sent s.sent

theorem LearnerSpelled.event (h : LearnerSpelled s b) (e : LearnerEvent) :
    LearnerSpelled (learnerEvent cfg s e) (b.event cfg s e) := by
  cases e with
  | learn lmsg =>
      refine ⟨h.length, ?_⟩
      rw [learnerEvent, learnerHandleLearnMsg_sent]
      exact h.sent
  | lsyncTimer =>
      obtain ⟨hlength, hsent⟩ := lsyncCheck_spelled h.length h.sent
      exact ⟨hlength, hsent⟩

/-- The datagrams of a learner spell its lsyncs, one by one. -/
theorem learner_datagrams_spell (cfg : Config) (mem : UdpBuffer) (bufferSize : Int)
    (events : List LearnerEvent) :
    Spells (events.foldl (sideBySide (learnerEvent cfg) (LearnerBuffer.event cfg))
        (learnerStart, ⟨⟨mem.bytes, []⟩, bufferSize⟩)).2.sent (learnerRun cfg events).sent :=
  (foldl_sideBySide LearnerSpelled (fun _ _ e _ h => LearnerSpelled.event h e)
    ⟨mem.length_eq, .nil⟩).sent

end Asks
end LibFastPaxos
