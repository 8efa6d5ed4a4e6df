import LibFastPaxos.AcceptorReceives
import LibFastPaxos.LearnerReceives
import LibFastPaxos.LeaderReceives

/-!
The three parties that parse datagrams. A party that gets a well-formed datagram handles
the message it encodes; what it does with any other depends on which of its own checks the
datagram happens to meet.
-/

namespace LibFastPaxos

open Memory

/-- A party that receives, in some state. -/
inductive Receiver where
  | acceptor (env : DiskEnv) (s : AcceptorState)
  | learner (s : LearnerState)
  | leader (s : LeaderState)

/-- A well-formed datagram is handled as the message it encodes, any other changes nothing. -/
def Receiver.Receives (cfg : Config) (buf : UdpBuffer) (d : Datagram) : Receiver → Prop
  | .acceptor env s => AcceptorReceives cfg env s buf d
  | .learner s => LearnerReceives cfg s buf d
  | .leader s => LeaderReceives cfg s buf d

/-- The datagram is well-formed or is stopped on its way to the protocol state. -/
def Receiver.Guarded (cfg : Config) (buf : UdpBuffer) (d : Datagram) : Receiver → Prop
  | .acceptor env s => (∃ msg, d.Encodes msg) ∨ AcceptorStops cfg env s buf d
  | .learner s => (∃ msg, LearnerEncodes cfg d msg) ∨ LearnerStops cfg s buf d
  | .leader s =>
      (∀ msg, LeaderEncodes cfg d msg → ∀ batch, msg.data = .promise batch → ¬ batch.Endless) ∧
        ((∃ msg, LeaderEncodes cfg d msg) ∨ LeaderStops cfg s buf d)

theorem padded_length {bytes : Bytes} (short : (bytes.length : Int) ≤ maxUdpMsgSize) :
    ((bytes ++ List.replicate (9000 - bytes.length) 0).length : Int) = maxUdpMsgSize := by
  simp only [maxUdpMsgSize] at short
  simp only [List.length_append, List.length_replicate, maxUdpMsgSize]
  omega

def bufferWith (bytes : Bytes) (short : (bytes.length : Int) ≤ maxUdpMsgSize) : UdpBuffer where
  bytes := bytes ++ List.replicate (9000 - bytes.length) 0
  length_eq := padded_length short

/-- Four bytes, whose size field is the length less the eight of a header. -/
def shortDatagram : Datagram := ⟨ints [-4], by decide⟩

/-- The size fields say 100 and 0; the bytes are a learn and a promise. -/
def missizedLearn : Datagram := ⟨ints [100, paxosLearn, 0, 0, 20, 1, 1] ++ [7], by decide⟩

def missizedPromise : Datagram := ⟨ints [0, paxosPromise, 0, 1, 0, 20, -1, 0], by decide⟩

theorem not_encodes_of_size {d : Datagram} {buf : UdpBuffer} {size : Int}
    (read : intAt (buf.receive d) 0 = some size) (differs : size ≠ d.bytes.length - sizeofPaxosMsg)
    (msg : PaxosMsg) : ¬ d.Encodes msg := by
  intro h
  have heq := Option.some.inj (read.symm.trans (h.header buf).1)
  exact differs (heq.trans h.size_eq)

theorem not_encodes_of_short {d : Datagram} (short : (d.bytes.length : Int) < sizeofPaxosMsg)
    (msg : PaxosMsg) : ¬ d.Encodes msg := by
  intro h
  have hle := h.length_le
  omega

/-- An accept that is handled, and what stays of it in the buffer. -/
def firstAccept : AcceptMsg where
  iid := 0
  ballot := 20
  valueSize := 1
  proposerId := 0
  value := [7]

def acceptedOnce : AcceptorState := handleAccept .shipped quietDisk (acceptorStart 0) firstAccept

def staleBuffer : UdpBuffer := bufferWith (acceptPacket firstAccept).bytes (by decide)

def emptyBuffer : UdpBuffer := bufferWith [] (by decide)

/-- Four bytes make the acceptor answer the accept again. -/
theorem shortDatagram_answered :
    ¬ AcceptorReceives .shipped quietDisk acceptedOnce staleBuffer shortDatagram := by
  intro h
  have hshort : (shortDatagram.bytes.length : Int) < sizeofPaxosMsg := by decide
  obtain ⟨t, run, untouched⟩ := h.malformed (not_encodes_of_short hshort)
  have hsent := congrArg (Option.map fun u => u.sent.length) run
  rw [Option.map_some, untouched.sent] at hsent
  exact absurd hsent (by decide +kernel)

/-- A learn of the wrong size is learned. -/
theorem missizedLearn_learned :
    ¬ LearnerReceives .shipped learnerStart emptyBuffer missizedLearn := by
  intro h
  have hsize : intAt (emptyBuffer.receive missizedLearn) 0 = some 100 := by decide +kernel
  have hsame := h.malformed fun msg hmsg =>
    not_encodes_of_size hsize (by decide) msg hmsg.toEncodes
  have hseen := congrArg (Option.map LearnerState.highestSeen) hsame
  exact absurd hseen (by decide +kernel)

/-- A promise of the wrong size is stored. -/
theorem missizedPromise_stored :
    ¬ LeaderReceives .shipped (leaderInit .shipped 0) emptyBuffer missizedPromise := by
  intro h
  have hsize : intAt (emptyBuffer.receive missizedPromise) 0 = some 0 := by decide +kernel
  obtain ⟨t, run, untouched⟩ := h.malformed fun msg hmsg =>
    not_encodes_of_size hsize (by decide) msg hmsg.toEncodes
  have hcount := congrArg (Option.map fun u => (u.proposerArray 0).promiseCount) run
  rw [Option.map_some, untouched.proposerArray] at hcount
  exact absurd hcount (by decide +kernel)

end LibFastPaxos
