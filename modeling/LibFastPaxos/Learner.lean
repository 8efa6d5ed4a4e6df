import LibFastPaxos.Messages
import Mathlib.Logic.Function.Basic

/-!
The learner of learner.c: the ring of records that collect learns, the count that
closes an instance, delivery in order, and the lsync that asks for what is
missing. `delivered` records the calls of the deliver function, newest first.
-/

namespace LibFastPaxos

structure LearnerRecord where
  iid : Int
  ballot : Int
  proposerId : Int
  finalValue : Option Bytes
  finalValueSize : Int
  learns : Nat → Option LearnMsg

/-- One call of the deliver function. -/
structure DeliverCall where
  value : Bytes
  size : Int
  iid : Int
  ballot : Int
  proposer : Int
  deriving DecidableEq, Repr

structure LearnerState where
  highestDelivered : Int
  highestSeen : Int
  learnerArray : Nat → LearnerRecord
  delivered : List DeliverCall
  sent : List PaxosMsg

/-- The static variables of learner.c. -/
def learnerStart : LearnerState where
  highestDelivered := -1
  highestSeen := -1
  learnerArray := fun _ =>
    { iid := 0, ballot := 0, proposerId := 0, finalValue := none, finalValueSize := 0
      learns := fun _ => none }
  delivered := []
  sent := []

def isClosed (r : LearnerRecord) : Bool := r.finalValue.isSome

namespace LearnerState

/-- `&learner_array[GET_LEA_INDEX(iid)]`. -/
def slot (s : LearnerState) (cfg : Config) (iid : Int) : LearnerRecord :=
  s.learnerArray (cfg.learnerArraySize.index iid)

def setSlot (s : LearnerState) (cfg : Config) (iid : Int) (r : LearnerRecord) : LearnerState :=
  { s with learnerArray := Function.update s.learnerArray (cfg.learnerArraySize.index iid) r }

end LearnerState

section Handlers

variable (cfg : Config)

/-- `none` drops the learn. -/
def addLearnToRecord (r : LearnerRecord) (lmsg : LearnMsg) : Option LearnerRecord :=
  if lmsg.acceptorId < 0 ∨ lmsg.acceptorId ≥ cfg.nOfAcceptors then none
  else
    let stored := { r with
      learns := Function.update r.learns lmsg.acceptorId.toNat (some lmsg) }
    match r.learns lmsg.acceptorId.toNat with
    | none => some stored
    | some oldLearn => if oldLearn.ballot ≥ lmsg.ballot then none else some stored

/-- The record of an instance that is met for the first time. -/
def cleanRecord (r : LearnerRecord) (iid : Int) : LearnerRecord :=
  { r with iid := iid, finalValue := none, finalValueSize := -1, learns := fun _ => none }

/-- `none` drops the learn. A learn of a new instance that is dropped for its
acceptor id leaves the cleaned record behind. -/
def updateRecord (s : LearnerState) (lmsg : LearnMsg) : LearnerState × Bool :=
  if lmsg.iid ≥ s.highestDelivered + cfg.learnerArraySize.size then (s, false)
  else if lmsg.iid ≤ s.highestDelivered then (s, false)
  else
    let r := s.slot cfg lmsg.iid
    if r.iid ≠ lmsg.iid then
      let r := cleanRecord r lmsg.iid
      match addLearnToRecord cfg r lmsg with
      | some r => (s.setSlot cfg lmsg.iid r, true)
      | none => (s.setSlot cfg lmsg.iid r, false)
    else if isClosed r then (s, false)
    else
      match addLearnToRecord cfg r lmsg with
      | some r => (s.setSlot cfg lmsg.iid r, true)
      | none => (s, false)

/-- Acceptors whose stored learn has this ballot. -/
def learnsWith (r : LearnerRecord) (ballot : Int) : List Nat :=
  (List.range cfg.nOfAcceptors).filter fun a => (r.learns a).any fun l => l.ballot = ballot

/-- The record is closed when a quorum of learns has the ballot of `lmsg`. -/
def checkQuorum (s : LearnerState) (lmsg : LearnMsg) : LearnerState × Bool :=
  let r := s.slot cfg lmsg.iid
  let count : Int := (learnsWith cfg r lmsg.ballot).length
  if count ≥ cfg.quorum then
    let r := { r with
      ballot := lmsg.ballot
      proposerId := lmsg.proposerId
      finalValueSize := lmsg.valueSize
      finalValue := some (memcpy lmsg.value lmsg.valueSize) }
    (s.setSlot cfg lmsg.iid r, true)
  else (s, false)

/-- The loop of `deliver_values`. Each turn empties a slot, so that a turn for each
slot of the ring is all it can take. -/
def deliverLoop : Nat → LearnerState → Int → LearnerState
  | 0, s, _ => s
  | fuel + 1, s, instanceId =>
      let r := s.slot cfg instanceId
      match r.finalValue with
      | none => s
      | some value =>
          let call : DeliverCall :=
            { value := memcpy value r.finalValueSize
              size := r.finalValueSize
              iid := instanceId
              ballot := r.ballot
              proposer := r.proposerId }
          let s := s.setSlot cfg instanceId { r with finalValue := none }
          deliverLoop fuel
            { s with highestDelivered := instanceId, delivered := call :: s.delivered }
            (instanceId + 1)

def deliverValues (s : LearnerState) (instanceId : Int) : LearnerState :=
  deliverLoop cfg (cfg.learnerArraySize.size + 1) s instanceId

def learnerHandleLearnMsg (s : LearnerState) (lmsg : LearnMsg) : LearnerState :=
  let s := if lmsg.iid > s.highestSeen then { s with highestSeen := lmsg.iid } else s
  match updateRecord cfg s lmsg with
  | (s, false) => s
  | (s, true) =>
      match checkQuorum cfg s lmsg with
      | (s, false) => s
      | (s, true) =>
          if lmsg.iid = s.highestDelivered + 1 then deliverValues cfg s lmsg.iid else s

/-- The body of the loop of `ask_retransmission`; the list is `lsync->ids`. -/
def askInstance (acc : LearnerState × List Int) (i : Int) : LearnerState × List Int :=
  let (s, ids) := acc
  let r := s.slot cfg i
  if (r.iid = i ∧ isClosed r = false) ∨ r.iid < i then
    let ids := ids ++ [i]
    let bufferSize := sizeofLearnerSyncMsg + sizeofPaxosMsg + ids.length * sizeofInt
    if maxUdpMsgSize - bufferSize < sizeofInt then
      ({ s with sent := lsyncPacket ids :: s.sent }, [])
    else (s, ids)
  else (s, ids)

def askRetransmission (s : LearnerState) : LearnerState :=
  let count := (s.highestSeen - (s.highestDelivered + 1)).toNat
  let missing := (List.range count).map fun (n : Nat) => s.highestDelivered + 1 + n
  let (s, ids) := missing.foldl (askInstance cfg) (s, [])
  if ids.length > 0 then { s with sent := lsyncPacket ids :: s.sent } else s

def lsyncCheck (s : LearnerState) : LearnerState :=
  if s.highestSeen > s.highestDelivered then askRetransmission cfg s else s

end Handlers
end LibFastPaxos
