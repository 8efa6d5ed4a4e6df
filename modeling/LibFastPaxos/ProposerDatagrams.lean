import LibFastPaxos.SystemInvariant
import LibFastPaxos.PromiseRoundTrip
import LibFastPaxos.Spelling

/-!
`proposer_send_buffer` as bytes. A call fills both headers and the value; what is sent
again later is the same buffer, with another instance written over the first one.
-/

namespace LibFastPaxos

open Memory Transition

/-- `proposer_send_buffer` and the static `msg_size`. -/
structure ProposerBuffer extends Sender where
  msgSize : Int

namespace ProposerBuffer

def setInt (b : ProposerBuffer) (off x : Int) : ProposerBuffer :=
  { b with toSender := b.set off x }

def sendBuffer (b : ProposerBuffer) : ProposerBuffer := { b with toSender := b.send b.msgSize }

/-- The buffer filled by `proposer_submit_value`. -/
def fill (s : ProposerState) (b : ProposerBuffer) (value : Bytes) : ProposerBuffer :=
  let b := b.setInt 8 s.currentIid
  let b := (b.setInt 4 paxosAccept).setInt 0 (sizeofAcceptMsg + value.length)
  let b := ((b.setInt 12 s.fixedBallot).setInt 16 value.length).setInt 20 s.proposerId
  let b := { b with toSender := b.copy 24 value }
  { b with msgSize := b.get 0 + sizeofPaxosMsg }

def proposerSubmitValue (s : ProposerState) (b : ProposerBuffer) (value : Bytes) :
    ProposerBuffer :=
  if value.length > paxosMaxValueSize then b else (fill s b value).sendBuffer

def proposerCheckTimeout (s : ProposerState) (b : ProposerBuffer) (ti : TimeoutInfo) :
    ProposerBuffer :=
  if s.clientWaiting ∧ ti.instanceId = s.lastAcceptIid ∧ ti.hash = s.lastAcceptHash then
    b.sendBuffer
  else b

def proposerDeliverCallback (s : ProposerState) (b : ProposerBuffer) (call : DeliverCall) :
    ProposerBuffer :=
  if s.clientWaiting = false then b
  else if s.proposerId = call.proposer then b
  else (b.setInt 8 (s.currentIid + 1)).sendBuffer

/-- The event on the buffer. -/
def event (s : ProposerState) (b : ProposerBuffer) : ProposerEvent → ProposerBuffer
  | .submit value => b.proposerSubmitValue s value
  | .deliver call => b.proposerDeliverCallback s call
  | .timeout ti => b.proposerCheckTimeout s ti

end ProposerBuffer

section Spelled

variable {s t : ProposerState} {b : ProposerBuffer} {m : AcceptMsg}

/-- The buffer holds the packet of this accept. -/
structure HoldsAccept (b : ProposerBuffer) (size : Int) (m : AcceptMsg) : Prop where
  filled : b.Filled maxUdpMsgSize m.row m.value
  msgSize : b.msgSize = sizeofPaxosMsg + (sizeofAcceptMsg + m.valueSize)
  size_eq : size = sizeofAcceptMsg + m.valueSize
  valueSize_eq : m.valueSize = m.value.length
  valueSize_le : m.valueSize ≤ paxosMaxValueSize

structure ProposerSpelled (s : ProposerState) (b : ProposerBuffer) : Prop where
  length : (b.bytes.length : Int) = maxUdpMsgSize
  sent : Spells b.sent s.sent
  accept : s.clientWaiting = true → HoldsAccept b s.size s.amsg

theorem HoldsAccept.sent {size : Int} (h : HoldsAccept b size m) {packets : List PaxosMsg}
    (sent : Spells b.sent packets) :
    Spells b.sendBuffer.sent ({ size := size, data := .accept m } :: packets) := by
  have hsent := accept_sent h.filled sent h.valueSize_eq h.valueSize_le
  rw [← h.msgSize, ← h.size_eq] at hsent
  exact hsent

theorem HoldsAccept.sendBuffer {size : Int} (h : HoldsAccept b size m) :
    HoldsAccept b.sendBuffer size m :=
  ⟨h.filled.send b.msgSize, h.msgSize, h.size_eq, h.valueSize_eq, h.valueSize_le⟩

theorem fill_filled (length : (b.bytes.length : Int) = maxUdpMsgSize) (s : ProposerState)
    {value : Bytes} (small : ¬ (value.length : Int) > paxosMaxValueSize) :
    (b.fill s value).Filled maxUdpMsgSize
      (AcceptMsg.row ⟨s.currentIid, s.fixedBallot, value.length, s.proposerId, value⟩) value := by
  obtain ⟨xs, hlen, hxs⟩ := Sender.exists_filled 6 length (show (4 : Int) * 6 ≤ 9000 by decide)
  match xs, hlen with
  | [x₀, x₁, x₂, x₃, x₄, x₅], _ =>
      have hiid := hxs.set (k := 2) (show 2 < 6 by decide) rfl s.currentIid
      have htype := hiid.set (k := 1) (show 1 < 6 by decide) rfl paxosAccept
      have hmsgSize := htype.set (k := 0) (show 0 < 6 by decide) rfl
        (sizeofAcceptMsg + value.length)
      have hballot := hmsgSize.set (k := 3) (show 3 < 6 by decide) rfl s.fixedBallot
      have hsize := hballot.set (k := 4) (show 4 < 6 by decide) rfl (value.length : Int)
      have hproposer := hsize.set (k := 5) (show 5 < 6 by decide) rfl s.proposerId
      refine hproposer.copy rfl ?_
      simp only [paxosMaxValueSize] at small
      simp only [maxUdpMsgSize]
      omega

theorem ProposerSpelled.submit (h : ProposerSpelled s b) (value : Bytes) :
    ProposerSpelled (proposerSubmitValue s value) (b.proposerSubmitValue s value) := by
  simp only [LibFastPaxos.proposerSubmitValue, ProposerBuffer.proposerSubmitValue]
  split
  · exact ⟨h.length, h.sent, h.accept⟩
  · next small =>
      have hfilled := fill_filled h.length s small
      have hget : (b.fill s value).get 0 = sizeofAcceptMsg + value.length := by
        refine hfilled.get (k := 0) rfl rfl ?_
        exact AcceptMsg.size_fits (m := ⟨s.currentIid, s.fixedBallot, value.length, s.proposerId,
          value⟩) rfl (Int.not_lt.mp small)
      have hsize : (b.fill s value).msgSize =
          sizeofPaxosMsg + (sizeofAcceptMsg + value.length) := by
        rw [← hget]
        exact Int.add_comm _ _
      have hheld : HoldsAccept (b.fill s value) (sizeofAcceptMsg + value.length)
          ⟨s.currentIid, s.fixedBallot, value.length, s.proposerId, value⟩ :=
        ⟨hfilled, hsize, rfl, rfl, Int.not_lt.mp small⟩
      exact ⟨hfilled.length, hheld.sent h.sent, fun _ => hheld.sendBuffer⟩

theorem ProposerSpelled.checkTimeout (h : ProposerSpelled s b) (ti : TimeoutInfo) :
    ProposerSpelled (proposerCheckTimeout s ti) (b.proposerCheckTimeout s ti) := by
  simp only [LibFastPaxos.proposerCheckTimeout, ProposerBuffer.proposerCheckTimeout]
  split
  · next live =>
      have hheld := h.accept live.1
      exact ⟨h.length, hheld.sent h.sent, fun _ => hheld.sendBuffer⟩
  · exact ⟨h.length, h.sent, h.accept⟩

theorem ProposerSpelled.deliver (h : ProposerSpelled s b) {call : DeliverCall}
    (run : proposerDeliverCallback s call = some t) :
    ProposerSpelled t (b.proposerDeliverCallback s call) := by
  obtain ⟨-, outcome⟩ := proposerDeliverCallback_outcome run
  simp only [ProposerBuffer.proposerDeliverCallback]
  cases outcome with
  | idle waiting =>
      rw [if_pos waiting]
      exact ⟨h.length, h.sent, h.accept⟩
  | woken waiting own =>
      rw [if_neg (by simp [waiting]), if_pos own.symm]
      refine ⟨h.length, ?_, fun woken => by cases woken⟩
      change Spells b.sent
        ((s.told call ++ .deliver call :: s.trace).filterMap ProposerEffect.sent?)
      rw [told_sent]
      exact h.sent
  | resent waiting other =>
      have hheld := h.accept waiting
      rw [if_neg (by simp [waiting]), if_neg (Ne.symm other)]
      have hnext : HoldsAccept (b.setInt 8 (s.currentIid + 1)) s.size
          { s.amsg with iid := s.currentIid + 1 } :=
        ⟨hheld.filled.set (k := 2) (show 2 < 6 by decide) rfl (s.currentIid + 1), hheld.msgSize,
          hheld.size_eq, hheld.valueSize_eq, hheld.valueSize_le⟩
      have htold : Spells b.sent
          ((s.told call ++ .deliver call :: s.trace).filterMap ProposerEffect.sent?) := by
        rw [told_sent]
        exact h.sent
      exact ⟨hnext.filled.length, hnext.sent htold, fun _ => hnext.sendBuffer⟩

theorem ProposerSpelled.event (h : ProposerSpelled s b) {event : ProposerEvent}
    (run : proposerStep s event = some t) : ProposerSpelled t (b.event s event) := by
  cases event with
  | submit value =>
      obtain ⟨-, ht⟩ := Option.ite_none_right_eq_some.mp run
      obtain rfl := Option.some.inj ht
      exact h.submit value
  | deliver call => exact h.deliver run
  | timeout ti =>
      obtain ⟨-, ht⟩ := Option.ite_none_right_eq_some.mp run
      obtain rfl := Option.some.inj ht
      exact h.checkTimeout ti

/-- State and buffer take the event. -/
def proposerBytesEvent (p : ProposerState × ProposerBuffer) (event : ProposerEvent) :
    Option (ProposerState × ProposerBuffer) :=
  (proposerStep p.1 event).map fun t => (t, p.2.event p.1 event)

theorem start_proposer_spelled {cfg : Config} {role : Role}
    (start : (role.start cfg).proposer = some s) (mem : UdpBuffer) (msgSize : Int) :
    ProposerSpelled s ⟨⟨mem.bytes, []⟩, msgSize⟩ := by
  cases role with
  | learner => cases start
  | proposer _ _ | proposerAndDeliver _ _ _ =>
      cases start
      exact ⟨mem.length_eq, .nil, fun waiting => by cases waiting⟩

/-- The datagrams of a proposer spell its accepts, one by one. -/
theorem proposer_datagrams_spell {cfg : Config} {role : Role}
    (start : (role.start cfg).proposer = some s) (mem : UdpBuffer) (msgSize : Int)
    {events : List ProposerEvent} {p : ProposerState × ProposerBuffer}
    (run : events.foldlM proposerBytesEvent (s, ⟨⟨mem.bytes, []⟩, msgSize⟩) = some p) :
    Spells p.2.sent p.1.sent := by
  have hmeets : ∀ p, Meets proposerBytesEvent anyStep p events :=
    fun p => Meets.of_forall (fun _ _ => trivial) events p
  have hspelled : ProposerSpelled p.1 p.2 := by
    refine Meets.invariant (P := fun _ => True) (fun p => ProposerSpelled p.1 p.2) ?_
      (fun _ _ => trivial) (start_proposer_spelled start mem msgSize) (hmeets _) run
    intro p e q _ h _ move
    obtain ⟨t, ht, rfl⟩ := Option.map_eq_some_iff.mp move
    exact h.event ht
  exact hspelled.sent

/-- Somebody else's value is delivered, and the accept goes out for the next instance. -/
theorem proposer_datagrams_spell_moved :
    ∃ s p, (Role.start .shipped (.proposer 1 false)).proposer = some s ∧
      [ProposerEvent.submit [7], .deliver ⟨[9], 1, 0, 12, 2⟩].foldlM proposerBytesEvent
        (s, ⟨⟨zeroBuffer.bytes, []⟩, 0⟩) = some p ∧
      Spells p.2.sent p.1.sent ∧
      p.1.sent = [acceptPacket ⟨1, 11, 1, 1, [7]⟩, acceptPacket ⟨0, 11, 1, 1, [7]⟩] := by
  have hrun : ∃ s p, (Role.start .shipped (.proposer 1 false)).proposer = some s ∧
      [ProposerEvent.submit [7], .deliver ⟨[9], 1, 0, 12, 2⟩].foldlM proposerBytesEvent
        (s, ⟨⟨zeroBuffer.bytes, []⟩, 0⟩) = some p ∧
      p.1.sent = [acceptPacket ⟨1, 11, 1, 1, [7]⟩, acceptPacket ⟨0, 11, 1, 1, [7]⟩] :=
    ⟨_, _, rfl, rfl, by decide⟩
  obtain ⟨s, p, start, run, hsent⟩ := hrun
  exact ⟨s, p, start, run, proposer_datagrams_spell start zeroBuffer 0 run, hsent⟩

end Spelled
end LibFastPaxos
