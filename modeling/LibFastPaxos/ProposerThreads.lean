import LibFastPaxos.ProposerRetries

/-!
The proposer as the two threads that share its send buffer. The client thread
takes three steps before it waits: the locked block, the filling of the buffer
with the first send, and the timeout. The callbacks of the event thread come
between them, when `client_waiting` and `amsg->iid` are already those of the new
call and the buffer still holds the value of the call before.
-/

namespace LibFastPaxos

open Transition History

/-- Where the client thread is in its call of `proposer_submit_value`. -/
inductive ClientPc where
  | idle
  | filling (value : Bytes)
  | arming (value : Bytes)
  | waiting (value : Bytes)
  deriving DecidableEq, Repr

/-- The value of the call that has not returned. -/
def ClientPc.value? : ClientPc → Option Bytes
  | .idle => none
  | .filling value | .arming value | .waiting value => some value

structure ThreadState extends ProposerState where
  msgSize : Int
  client : ClientPc

namespace ThreadState

/-- Before the buffer is first filled `msg_size` is zero: the datagram is empty and its
type is none. -/
def udpSend (s : ThreadState) : ThreadState :=
  if s.msgSize = 0 then s else { s with toProposerState := s.toProposerState.sendBuffer }

def setProposerCheckTimeout (s : ThreadState) (instanceId hash : Int) : ThreadState :=
  { s with toProposerState := s.toProposerState.setProposerCheckTimeout instanceId hash }

end ThreadState

inductive ThreadEvent where
  | call (value : Bytes)
  | fill
  | arm
  | returns
  | timeout (ti : TimeoutInfo)
  | deliver (call : DeliverCall)
  deriving DecidableEq, Repr

/-! ### The client thread -/

/-- The locked block; a value that is too big is refused before it. -/
def threadCall (s : ThreadState) (value : Bytes) : ThreadState :=
  let firstHash := 1
  if value.length > paxosMaxValueSize then
    { s with trace := .returned :: .submit value :: s.trace }
  else
    { s with
      trace := .submit value :: s.trace
      amsg := { s.amsg with iid := s.currentIid }
      lastAcceptIid := s.currentIid
      lastAcceptHash := firstHash
      clientWaiting := true
      client := .filling value }

def threadFill (s : ThreadState) (value : Bytes) : ThreadState :=
  let s := { s with
    size := sizeofAcceptMsg + value.length
    amsg := { s.amsg with
      ballot := s.fixedBallot
      valueSize := value.length
      proposerId := s.proposerId
      value := value }
    msgSize := sizeofAcceptMsg + value.length + sizeofPaxosMsg
    client := .arming value }
  s.udpSend

def threadArm (s : ThreadState) (value : Bytes) : ThreadState :=
  let firstHash := 1
  { s with client := .waiting value }.setProposerCheckTimeout s.amsg.iid firstHash

/-! ### The event thread -/

def threadCheckTimeout (s : ThreadState) (ti : TimeoutInfo) : ThreadState :=
  let s := { s with timers := s.timers.erase ti }
  if s.clientWaiting ∧ ti.instanceId = s.lastAcceptIid ∧ ti.hash = s.lastAcceptHash then
    let s := { s with lastAcceptHash := s.lastAcceptHash + 1 }
    s.udpSend.setProposerCheckTimeout ti.instanceId s.lastAcceptHash
  else s

/-- The client is woken here and returns in a step of its own. -/
def threadDeliverCallback (s : ThreadState) (call : DeliverCall) : Option ThreadState :=
  let justAccepted := s.currentIid
  let s := { s with currentIid := s.currentIid + 1, trace := .deliver call :: s.trace }
  if justAccepted ≠ call.iid then none
  else if s.clientWaiting = false then some s
  else
    let s := { s with toProposerState := s.toProposerState.callClient call }
    if s.proposerId = call.proposer then some { s with clientWaiting := false }
    else
      let s := { s with
        amsg := { s.amsg with iid := s.currentIid }
        lastAcceptIid := justAccepted
        lastAcceptHash := s.lastAcceptHash + 1 }
      some (s.udpSend.setProposerCheckTimeout s.amsg.iid s.lastAcceptHash)

def threadStep (s : ThreadState) : ThreadEvent → Option ThreadState
  | .call value => if s.client = .idle then some (threadCall s value) else none
  | .fill =>
      match s.client with
      | .filling value => some (threadFill s value)
      | _ => none
  | .arm =>
      match s.client with
      | .arming value => some (threadArm s value)
      | _ => none
  | .returns =>
      match s.client with
      | .waiting _ =>
          if s.clientWaiting = false then
            some { s with client := .idle, trace := .returned :: s.trace }
          else none
      | _ => none
  | .timeout ti => if ti ∈ s.timers then some (threadCheckTimeout s ti) else none
  | .deliver call => threadDeliverCallback s call

def threadStart (s : ProposerState) : ThreadState where
  toProposerState := s
  msgSize := 0
  client := .idle

/-- A call whose three steps are not interrupted is the one step of the atomic client. -/
theorem submit_uninterrupted {s : ThreadState} (idle : s.client = .idle) {value : Bytes}
    (fits : ¬ value.length > paxosMaxValueSize) :
    ∃ t, [.call value, .fill, .arm].foldlM threadStep s = some t ∧
      t.client = .waiting value ∧ t.msgSize ≠ 0 ∧
      t.toProposerState = proposerSubmitValue s.toProposerState value := by
  have hsize : (sizeofAcceptMsg + value.length + sizeofPaxosMsg : Int) ≠ 0 := by
    simp only [sizeofAcceptMsg, sizeofPaxosMsg]
    omega
  simp [threadStep, idle, threadCall, fits, threadFill, threadArm, ThreadState.udpSend, hsize,
    ThreadState.setProposerCheckTimeout, proposerSubmitValue, ProposerState.emit,
    ProposerState.sendBuffer, ProposerState.setProposerCheckTimeout]

/-! ### What a call may send -/

/-- The value of the newest call, if it has not returned. -/
def openCall : List ProposerEffect → Option Bytes
  | .submit value :: _ => some value
  | .returned :: _ => none
  | _ :: older => openCall older
  | [] => none

/-- An accept datagram of exactly this value. -/
def PaxosMsg.Carries (packet : PaxosMsg) (value : Bytes) : Prop :=
  ∃ m, packet.data = .accept m ∧ m.value = value ∧ m.valueSize = value.length ∧
    packet.size = sizeofAcceptMsg + value.length

/-- A datagram is sent during a call and carries its value. -/
def SendsOwnValue (e : ProposerEffect) (older : List ProposerEffect) : Prop :=
  ∀ packet, e = .send packet → ∃ value, openCall older = some value ∧ packet.Carries value

structure NoStaleBuffer (s : ThreadState) : Prop where
  own_value : Along SendsOwnValue s.trace
  one_value : ∀ m m', Sends s.sent m → Sends s.sent m' → m.iid = m'.iid → m.value = m'.value

/-- The send buffer holds this value, with its sizes. -/
structure ThreadState.Holds (s : ThreadState) (value : Bytes) : Prop where
  value_eq : s.amsg.value = value
  valueSize_eq : s.amsg.valueSize = value.length
  size_eq : s.size = sizeofAcceptMsg + value.length

/-- The condition: somebody else's value is delivered between the locked block and the
filling of the buffer only if the buffer was never filled or holds the value already. -/
def KeepsBuffer (s : ThreadState) : ThreadEvent → Prop
  | .deliver call => ∀ value, s.client = .filling value → s.clientWaiting = true →
      call.proposer ≠ s.proposerId → s.msgSize = 0 ∨ s.Holds value
  | _ => True

/-! ### The invariant -/

structure ThreadOk (s : ThreadState) : Prop where
  open_call : openCall s.trace = s.client.value?
  idle : s.client.value? = none → s.clientWaiting = false
  own_value : Along SendsOwnValue s.trace
  /-- What the event thread may send of the buffer is the value of the call. -/
  filled : ∀ value, s.client = .arming value ∨ s.client = .waiting value →
    s.msgSize ≠ 0 ∧ s.Holds value
  window : ∀ value, s.client = .filling value → s.clientWaiting = true →
    s.msgSize = 0 ∨ s.Holds value ∨
      (s.lastAcceptIid = s.currentIid ∧ ∀ ti ∈ s.timers, ti.instanceId < s.currentIid)
  timers_le : ∀ ti ∈ s.timers, ti.instanceId ≤ s.currentIid
  timers_lt : s.clientWaiting = false → ∀ ti ∈ s.timers, ti.instanceId < s.currentIid
  buffer_waiting : s.clientWaiting = true → s.amsg.iid = s.currentIid
  buffer_woken : s.client.value? ≠ none → s.clientWaiting = false → s.amsg.iid < s.currentIid
  sent_idle : s.client.value? = none → ∀ m, Sends s.sent m → m.iid < s.currentIid
  sent_open : ∀ value, s.client.value? = some value → ∀ m, Sends s.sent m →
    m.iid < s.amsg.iid ∨ (m.iid = s.amsg.iid ∧ m.value = value)
  one_value : ∀ m m', Sends s.sent m → Sends s.sent m' → m.iid = m'.iid → m.value = m'.value

theorem ThreadOk.noStaleBuffer {s : ThreadState} (h : ThreadOk s) : NoStaleBuffer s :=
  ⟨h.own_value, h.one_value⟩

section Preservation

variable {s t : ThreadState} {value : Bytes}

/-- The buffer may be sent: it was never filled, or it holds the value of the call. -/
def ThreadState.Ready (s : ThreadState) (value : Bytes) : Prop :=
  s.msgSize = 0 ∨ s.Holds value

theorem ThreadState.Holds.of_buffer (h : s.Holds value) (hvalue : t.amsg.value = s.amsg.value)
    (valueSize : t.amsg.valueSize = s.amsg.valueSize) (size : t.size = s.size) :
    t.Holds value :=
  ⟨hvalue.trans h.value_eq, valueSize.trans h.valueSize_eq, size.trans h.size_eq⟩

@[simp] theorem udpSend_client : s.udpSend.client = s.client := by
  simp only [ThreadState.udpSend]
  split <;> rfl

@[simp] theorem udpSend_msgSize : s.udpSend.msgSize = s.msgSize := by
  simp only [ThreadState.udpSend]
  split <;> rfl

@[simp] theorem udpSend_clientWaiting : s.udpSend.clientWaiting = s.clientWaiting := by
  simp only [ThreadState.udpSend]
  split <;> rfl

@[simp] theorem udpSend_currentIid : s.udpSend.currentIid = s.currentIid := by
  simp only [ThreadState.udpSend]
  split <;> rfl

@[simp] theorem udpSend_amsg : s.udpSend.amsg = s.amsg := by
  simp only [ThreadState.udpSend]
  split <;> rfl

@[simp] theorem udpSend_size : s.udpSend.size = s.size := by
  simp only [ThreadState.udpSend]
  split <;> rfl

theorem ThreadState.Ready.udpSend (h : s.Ready value) : s.udpSend.Ready value := by
  refine h.imp (fun hzero => ?_) fun hv => hv.of_buffer ?_ ?_ ?_
  all_goals simp [*]

/-- Sending the buffer during a call. -/
theorem ThreadOk.udpSend (h : ThreadOk s) (hvalue : s.client.value? = some value)
    (ready : s.Ready value) : ThreadOk s.udpSend := by
  simp only [ThreadState.udpSend]
  split
  · exact h
  · next hfilled =>
      have hholds := ready.resolve_left hfilled
      have hsends : ∀ m, Sends (s.toProposerState.sendBuffer).sent m →
          m = s.amsg ∨ Sends s.sent m := by
        intro m hm
        cases sends_cons.mp hm with
        | inl heq =>
            cases heq
            exact .inl rfl
        | inr hold => exact .inr hold
      refine ⟨h.open_call, h.idle, ⟨?_, h.own_value⟩, ?_, ?_, h.timers_le, h.timers_lt,
        h.buffer_waiting, h.buffer_woken, ?_, ?_, ?_⟩
      · intro packet hp
        cases hp
        exact ⟨value, h.open_call.trans hvalue, s.amsg, rfl, hholds.value_eq,
          hholds.valueSize_eq, hholds.size_eq⟩
      · intro v hv
        obtain ⟨hsize, hv⟩ := h.filled v hv
        exact ⟨hsize, hv.of_buffer rfl rfl rfl⟩
      · intro v hv hwaiting
        refine (h.window v hv hwaiting).imp_right (Or.imp_left fun hv => ?_)
        exact hv.of_buffer rfl rfl rfl
      · intro hnone
        rw [hvalue] at hnone
        cases hnone
      · intro v hv m hm
        obtain rfl := Option.some.inj (hvalue.symm.trans hv)
        cases hsends m hm with
        | inl heq => exact .inr ⟨congrArg _ heq, (congrArg _ heq).trans hholds.value_eq⟩
        | inr hold => exact h.sent_open value hvalue m hold
      · -- what was sent for the instance of the buffer carries the value too
        have hsame : ∀ m, Sends s.sent m → m.iid = s.amsg.iid → m.value = s.amsg.value := by
          intro m hm hiid
          cases h.sent_open value hvalue m hm with
          | inl hlt => omega
          | inr heq => exact heq.2.trans hholds.value_eq.symm
        intro m m' hm hm' hiid
        cases hsends m hm with
        | inl heq =>
            subst heq
            cases hsends m' hm' with
            | inl heq' => rw [heq']
            | inr hold' => exact (hsame m' hold' hiid.symm).symm
        | inr hold =>
            cases hsends m' hm' with
            | inl heq' =>
                subst heq'
                exact hsame m hold hiid
            | inr hold' => exact h.one_value m m' hold hold' hiid

theorem ThreadOk.setTimeout (h : ThreadOk s) {instanceId : Int} (hash : Int)
    (le : instanceId ≤ s.currentIid)
    (lt : s.clientWaiting = false → instanceId < s.currentIid)
    (ready : ∀ v, s.client = .filling v → s.clientWaiting = true → s.Ready v) :
    ThreadOk (s.setProposerCheckTimeout instanceId hash) := by
  refine ⟨h.open_call, h.idle, h.own_value, ?_, ?_, ?_, ?_, h.buffer_waiting, h.buffer_woken,
    h.sent_idle, h.sent_open, h.one_value⟩
  · intro v hv
    obtain ⟨hsize, hv⟩ := h.filled v hv
    exact ⟨hsize, hv.of_buffer rfl rfl rfl⟩
  · intro v hv hwaiting
    refine (ready v hv hwaiting).imp_right fun hv => ?_
    exact .inl (hv.of_buffer rfl rfl rfl)
  · intro ti hti
    cases List.mem_cons.mp hti with
    | inl heq =>
        subst heq
        exact le
    | inr hold => exact h.timers_le ti hold
  · intro hwaiting ti hti
    cases List.mem_cons.mp hti with
    | inl heq =>
        subst heq
        exact lt hwaiting
    | inr hold => exact h.timers_lt hwaiting ti hold

theorem ThreadOk.value_of_waiting (h : ThreadOk s) (waiting : s.clientWaiting = true) :
    ∃ value, s.client.value? = some value := by
  cases hvalue : s.client.value? with
  | some value => exact ⟨value, rfl⟩
  | none =>
      rw [h.idle hvalue] at waiting
      cases waiting

theorem ThreadOk.ready_of_filled (h : ThreadOk s) (hvalue : s.client.value? = some value)
    (window : s.client = .filling value → s.Ready value) : s.Ready value := by
  cases hclient : s.client with
  | idle =>
      rw [hclient] at hvalue
      cases hvalue
  | filling v =>
      rw [hclient] at hvalue
      obtain rfl := Option.some.inj hvalue
      exact window hclient
  | arming v =>
      rw [hclient] at hvalue
      obtain rfl := Option.some.inj hvalue
      exact .inr (h.filled v (.inl hclient)).2
  | waiting v =>
      rw [hclient] at hvalue
      obtain rfl := Option.some.inj hvalue
      exact .inr (h.filled v (.inr hclient)).2

theorem ThreadOk.call (h : ThreadOk s) (hidle : s.client = .idle) (value : Bytes) :
    ThreadOk (threadCall s value) := by
  have hnone : s.client.value? = none := by rw [hidle]; rfl
  have hwaiting := h.idle hnone
  simp only [threadCall]
  split
  · refine ⟨?_, h.idle, ⟨?_, ?_, h.own_value⟩, ?_, ?_, h.timers_le, h.timers_lt,
      h.buffer_waiting, h.buffer_woken, h.sent_idle, h.sent_open, h.one_value⟩
    · exact hnone.symm
    · intro packet hp
      cases hp
    · intro packet hp
      cases hp
    · intro v hv
      rw [hidle] at hv
      cases hv with
      | inl hv | inr hv => cases hv
    · intro v hv
      rw [hidle] at hv
      cases hv
  · refine ⟨rfl, ?_, ⟨?_, h.own_value⟩, ?_, ?_, h.timers_le, ?_, fun _ => rfl, ?_, ?_, ?_,
      h.one_value⟩
    · intro hv
      cases hv
    · intro packet hp
      cases hp
    · intro v hv
      cases hv with
      | inl hv | inr hv => cases hv
    · -- no timeout of an earlier call is of the current instance
      intro v _ _
      exact .inr (.inr ⟨rfl, h.timers_lt hwaiting⟩)
    · intro hv
      cases hv
    · intro _ hv
      cases hv
    · intro hv
      cases hv
    · intro v _ m hm
      exact .inl (h.sent_idle hnone m hm)

theorem ThreadOk.fill (h : ThreadOk s) (hclient : s.client = .filling value) :
    ThreadOk (threadFill s value) := by
  have hvalue : s.client.value? = some value := by rw [hclient]; rfl
  have hopen : s.client.value? ≠ none := by rw [hvalue]; exact Option.some_ne_none _
  have hsize : (sizeofAcceptMsg + value.length + sizeofPaxosMsg : Int) ≠ 0 := by
    simp only [sizeofAcceptMsg, sizeofPaxosMsg]
    omega
  simp only [threadFill]
  refine @ThreadOk.udpSend _ value ⟨?_, ?_, h.own_value, ?_, ?_, h.timers_le,
    h.timers_lt, h.buffer_waiting, fun _ => h.buffer_woken hopen, ?_, ?_, h.one_value⟩
    rfl (.inr ⟨rfl, rfl, rfl⟩)
  · exact h.open_call.trans hvalue
  · intro hv
    cases hv
  · intro v hv
    cases hv with
    | inl hv =>
        cases hv
        exact ⟨hsize, rfl, rfl, rfl⟩
    | inr hv => cases hv
  · intro v hv
    cases hv
  · intro hv
    cases hv
  · intro v hv
    obtain rfl := Option.some.inj hv
    exact h.sent_open value hvalue

theorem ThreadOk.arm (h : ThreadOk s) (hclient : s.client = .arming value) :
    ThreadOk (threadArm s value) := by
  have hvalue : s.client.value? = some value := by rw [hclient]; rfl
  have hopen : s.client.value? ≠ none := by rw [hvalue]; exact Option.some_ne_none _
  obtain ⟨hsize, hholds⟩ := h.filled value (.inl hclient)
  simp only [threadArm]
  refine @ThreadOk.setTimeout { s with client := .waiting value } ⟨?_, ?_, h.own_value, ?_, ?_,
    h.timers_le, h.timers_lt, h.buffer_waiting, fun _ => h.buffer_woken hopen, ?_, ?_,
    h.one_value⟩ _ 1 ?_ (h.buffer_woken hopen) ?_
  · exact h.open_call.trans hvalue
  · intro hv
    cases hv
  · intro v hv
    cases hv with
    | inl hv => cases hv
    | inr hv =>
        cases hv
        exact ⟨hsize, hholds.of_buffer rfl rfl rfl⟩
  · intro v hv
    cases hv
  · intro hv
    cases hv
  · intro v hv
    obtain rfl := Option.some.inj hv
    exact h.sent_open value hvalue
  · change s.amsg.iid ≤ s.currentIid
    cases hwaiting : s.clientWaiting with
    | true => exact Int.le_of_eq (h.buffer_waiting hwaiting)
    | false => exact Int.le_of_lt (h.buffer_woken hopen hwaiting)
  · intro v hv
    cases hv

theorem ThreadOk.return (h : ThreadOk s) (hclient : s.client = .waiting value)
    (woken : s.clientWaiting = false) :
    ThreadOk { s with client := .idle, trace := .returned :: s.trace } := by
  have hvalue : s.client.value? = some value := by rw [hclient]; rfl
  have hopen : s.client.value? ≠ none := by rw [hvalue]; exact Option.some_ne_none _
  have hbuffer := h.buffer_woken hopen woken
  refine ⟨rfl, fun _ => woken, ⟨?_, h.own_value⟩, ?_, ?_, h.timers_le, h.timers_lt,
    h.buffer_waiting, ?_, ?_, ?_, h.one_value⟩
  · intro packet hp
    cases hp
  · intro v hv
    cases hv with
    | inl hv | inr hv => cases hv
  · intro v hv
    cases hv
  · intro hv
    exact absurd rfl hv
  · intro _ m hm
    dsimp only
    cases h.sent_open value hvalue m hm with
    | inl hlt => omega
    | inr heq => omega
  · intro v hv
    cases hv

/-- A timeout that sends finds the value of the call in the buffer: between the locked block
and the filling only timeouts of older instances are armed. -/
theorem ThreadOk.ready_of_timeout (h : ThreadOk s) {ti : TimeoutInfo} (armed : ti ∈ s.timers)
    (waiting : s.clientWaiting = true) (instance_eq : ti.instanceId = s.lastAcceptIid) {v : Bytes}
    (hv : s.client = .filling v) : s.Ready v := by
  refine (h.window v hv waiting).imp_right fun hrest => hrest.resolve_right fun hold => ?_
  have := hold.2 ti armed
  omega

theorem ThreadOk.checkTimeout (h : ThreadOk s) {ti : TimeoutInfo} (armed : ti ∈ s.timers) :
    ThreadOk (threadCheckTimeout s ti) := by
  -- a timeout less, and whatever hash
  have hless : ∀ hash, ThreadOk { s with lastAcceptHash := hash, timers := s.timers.erase ti } := by
    intro hash
    have hsub : ∀ tj, tj ∈ s.timers.erase ti → tj ∈ s.timers := fun _ => List.mem_of_mem_erase
    refine ⟨h.open_call, h.idle, h.own_value, ?_, ?_, fun tj hj => h.timers_le tj (hsub tj hj),
      fun hw tj hj => h.timers_lt hw tj (hsub tj hj), h.buffer_waiting, h.buffer_woken,
      h.sent_idle, h.sent_open, h.one_value⟩
    · intro v hv
      obtain ⟨hsize, hv⟩ := h.filled v hv
      exact ⟨hsize, hv.of_buffer rfl rfl rfl⟩
    · intro v hv hwaiting
      cases h.window v hv hwaiting with
      | inl hzero => exact .inl hzero
      | inr hrest =>
          cases hrest with
          | inl hv => exact .inr (.inl (hv.of_buffer rfl rfl rfl))
          | inr hold => exact .inr (.inr ⟨hold.1, fun tj hj => hold.2 tj (hsub tj hj)⟩)
  simp only [threadCheckTimeout]
  split
  · next hmatch =>
      obtain ⟨hwaiting, hinstance, _⟩ := hmatch
      obtain ⟨value, hvalue⟩ := h.value_of_waiting hwaiting
      have hwindow : ∀ v, s.client = .filling v → s.Ready v :=
        fun v hv => h.ready_of_timeout armed hwaiting hinstance hv
      have hready : s.Ready value := h.ready_of_filled hvalue (hwindow value)
      have hkeep : ∀ v, s.Ready v →
          ThreadState.Ready
            { s with lastAcceptHash := s.lastAcceptHash + 1, timers := s.timers.erase ti } v :=
        fun v hv => hv.imp_right fun hv => hv.of_buffer rfl rfl rfl
      have hsent := (hless (s.lastAcceptHash + 1)).udpSend hvalue (hkeep value hready)
      refine hsent.setTimeout _ ?_ ?_ ?_
      · rw [udpSend_currentIid]
        exact h.timers_le ti armed
      · rw [udpSend_clientWaiting, udpSend_currentIid]
        exact fun hw => h.timers_lt hw ti armed
      · intro v hv _
        rw [udpSend_client] at hv
        exact (hkeep v (hwindow v hv)).udpSend
  · exact hless s.lastAcceptHash

theorem ThreadOk.deliverIdle (h : ThreadOk s) (waiting : s.clientWaiting = false)
    (call : DeliverCall) :
    ThreadOk { s with currentIid := s.currentIid + 1, trace := .deliver call :: s.trace } := by
  refine ⟨h.open_call, h.idle, ⟨?_, h.own_value⟩, ?_, ?_, ?_, ?_, ?_, ?_, ?_, h.sent_open,
    h.one_value⟩
  · intro packet hp
    cases hp
  · intro v hv
    obtain ⟨hsize, hv⟩ := h.filled v hv
    exact ⟨hsize, hv.of_buffer rfl rfl rfl⟩
  · intro v hv hwaiting
    rw [waiting] at hwaiting
    cases hwaiting
  · intro ti hti
    have := h.timers_lt waiting ti hti
    dsimp only
    omega
  · intro _ ti hti
    have := h.timers_lt waiting ti hti
    dsimp only
    omega
  · intro hwaiting
    rw [waiting] at hwaiting
    cases hwaiting
  · intro hopen _
    have := h.buffer_woken hopen waiting
    dsimp only
    omega
  · intro hnone m hm
    have : m.iid < s.currentIid := h.sent_idle hnone m hm
    dsimp only
    omega

/-- Telling the client leaves no datagram and no boundary of a call in the trace. -/
theorem openCall_told (p : ProposerState) (call : DeliverCall) (trace : List ProposerEffect) :
    openCall (p.told call ++ .deliver call :: trace) = openCall trace := by
  simp only [ProposerState.told]
  split <;> rfl

theorem along_told {p : ProposerState} {call : DeliverCall} {trace : List ProposerEffect}
    (h : Along SendsOwnValue trace) :
    Along SendsOwnValue (p.told call ++ .deliver call :: trace) := by
  have hdeliver : Along SendsOwnValue (.deliver call :: trace) := by
    refine ⟨?_, h⟩
    intro packet hp
    cases hp
  simp only [ProposerState.told]
  split
  · refine ⟨?_, hdeliver⟩
    intro packet hp
    cases hp
  · exact hdeliver

theorem ThreadOk.deliverWoken (h : ThreadOk s) (waiting : s.clientWaiting = true)
    (call : DeliverCall) :
    ThreadOk { s with
      currentIid := s.currentIid + 1
      clientWaiting := false
      trace := s.told call ++ .deliver call :: s.trace } := by
  have hsent : ∀ m, Sends ((s.told call ++ .deliver call :: s.trace).filterMap
      ProposerEffect.sent?) m ↔ Sends s.sent m := by
    intro m
    rw [told_sent]
    rfl
  have hbuffer := h.buffer_waiting waiting
  refine ⟨(openCall_told _ _ _).trans h.open_call, fun _ => rfl, along_told h.own_value, ?_, ?_,
    ?_, ?_, ?_, ?_, ?_, ?_, ?_⟩
  · intro v hv
    obtain ⟨hsize, hv⟩ := h.filled v hv
    exact ⟨hsize, hv.of_buffer rfl rfl rfl⟩
  · intro v _ hwaiting
    cases hwaiting
  · intro ti hti
    have := h.timers_le ti hti
    dsimp only
    omega
  · intro _ ti hti
    have := h.timers_le ti hti
    dsimp only
    omega
  · intro hwaiting
    cases hwaiting
  · intro _ _
    dsimp only
    omega
  · intro hnone
    rw [h.idle hnone] at waiting
    cases waiting
  · intro v hv m hm
    exact h.sent_open v hv m ((hsent m).mp hm)
  · intro m m' hm hm'
    exact h.one_value m m' ((hsent m).mp hm) ((hsent m').mp hm')

/-- The buffer is moved on to the next instance. -/
def ThreadState.moveOn (s : ThreadState) (call : DeliverCall) : ThreadState :=
  { s with
    currentIid := s.currentIid + 1
    amsg := { s.amsg with iid := s.currentIid + 1 }
    lastAcceptIid := s.currentIid
    lastAcceptHash := s.lastAcceptHash + 1
    trace := s.told call ++ .deliver call :: s.trace }

@[simp] theorem moveOn_clientWaiting (call : DeliverCall) :
    (s.moveOn call).clientWaiting = s.clientWaiting := rfl

@[simp] theorem moveOn_currentIid (call : DeliverCall) :
    (s.moveOn call).currentIid = s.currentIid + 1 := rfl

theorem moveOn_waiting (waiting : s.clientWaiting = true) (call : DeliverCall) :
    (s.moveOn call).clientWaiting ≠ false := by
  rw [moveOn_clientWaiting, waiting]
  decide

theorem ThreadState.Ready.moveOn (h : s.Ready value) (call : DeliverCall) :
    (s.moveOn call).Ready value :=
  h.imp_right fun hv => hv.of_buffer rfl rfl rfl

theorem ThreadOk.moveOn (h : ThreadOk s) (waiting : s.clientWaiting = true)
    (call : DeliverCall) (keeps : ∀ v, s.client = .filling v → s.Ready v) :
    ThreadOk (s.moveOn call) := by
  have hbuffer := h.buffer_waiting waiting
  have hsent : ∀ m, Sends ((s.told call ++ .deliver call :: s.trace).filterMap
      ProposerEffect.sent?) m ↔ Sends s.sent m := by
    intro m
    rw [told_sent]
    rfl
  refine ⟨(openCall_told _ _ _).trans h.open_call, h.idle, along_told h.own_value, ?_, ?_,
    ?_, ?_, fun _ => rfl, ?_, ?_, ?_, ?_⟩
  · intro v hv
    obtain ⟨hsize, hv⟩ := h.filled v hv
    exact ⟨hsize, hv.of_buffer rfl rfl rfl⟩
  · intro v hv _
    exact (keeps v hv).imp_right fun hv => .inl (hv.of_buffer rfl rfl rfl)
  · intro ti hti
    have := h.timers_le ti hti
    rw [moveOn_currentIid]
    omega
  · exact fun hwoken => absurd hwoken (moveOn_waiting waiting call)
  · exact fun _ hwoken => absurd hwoken (moveOn_waiting waiting call)
  · intro hnone
    rw [h.idle hnone] at waiting
    cases waiting
  · -- what was sent before is of an older instance
    intro v hv m hm
    left
    change m.iid < s.currentIid + 1
    cases h.sent_open v hv m ((hsent m).mp hm) with
    | inl hlt => omega
    | inr heq => omega
  · intro m m' hm hm'
    exact h.one_value m m' ((hsent m).mp hm) ((hsent m').mp hm')

/-- It is sent for that instance. -/
theorem ThreadOk.deliverResent (h : ThreadOk s) (waiting : s.clientWaiting = true)
    (call : DeliverCall) (keeps : ∀ v, s.client = .filling v → s.Ready v) :
    ThreadOk ((s.moveOn call).udpSend.setProposerCheckTimeout (s.currentIid + 1)
      (s.lastAcceptHash + 1)) := by
  obtain ⟨value, hvalue⟩ := h.value_of_waiting waiting
  have hready : s.Ready value := h.ready_of_filled hvalue (keeps value)
  have hsent : ThreadOk (s.moveOn call).udpSend :=
    (h.moveOn waiting call keeps).udpSend hvalue (hready.moveOn call)
  refine hsent.setTimeout _ ?_ ?_ ?_
  · rw [udpSend_currentIid]
    exact Int.le_refl _
  · rw [udpSend_clientWaiting]
    exact fun hwoken => absurd hwoken (moveOn_waiting waiting call)
  · intro v hv _
    rw [udpSend_client] at hv
    exact ((keeps v hv).moveOn call).udpSend

/-- What the deliver callback does, by who waits and whose value it is. -/
inductive ThreadDelivery (s : ThreadState) (call : DeliverCall) : ThreadState → Prop where
  | idle (waiting : s.clientWaiting = false) :
      ThreadDelivery s call
        { s with currentIid := s.currentIid + 1, trace := .deliver call :: s.trace }
  | woken (waiting : s.clientWaiting = true) (own : call.proposer = s.proposerId) :
      ThreadDelivery s call
        { s with
          currentIid := s.currentIid + 1
          clientWaiting := false
          trace := s.told call ++ .deliver call :: s.trace }
  | resent (waiting : s.clientWaiting = true) (other : call.proposer ≠ s.proposerId) :
      ThreadDelivery s call
        ((s.moveOn call).udpSend.setProposerCheckTimeout (s.currentIid + 1)
          (s.lastAcceptHash + 1))

theorem threadDeliverCallback_delivery {call : DeliverCall}
    (run : threadDeliverCallback s call = some t) : ThreadDelivery s call t := by
  simp only [threadDeliverCallback, callClient_eq] at run
  split at run
  · cases run
  · split at run
    · next waiting =>
        obtain rfl := Option.some.inj run
        exact .idle waiting
    · next waiting =>
        have waiting : s.clientWaiting = true := by simpa using waiting
        split at run
        · next own =>
            obtain rfl := Option.some.inj run
            exact .woken waiting own.symm
        · next other =>
            obtain rfl := Option.some.inj run
            exact .resent waiting (Ne.symm other)

theorem ThreadOk.step {event : ThreadEvent} (h : ThreadOk s)
    (move : threadStep s event = some t) (keeps : KeepsBuffer s event) : ThreadOk t := by
  cases event with
  | call value =>
      obtain ⟨hidle, ht⟩ := Option.ite_none_right_eq_some.mp move
      obtain rfl := Option.some.inj ht
      exact h.call hidle value
  | fill =>
      simp only [threadStep] at move
      split at move
      · next value hclient =>
          obtain rfl := Option.some.inj move
          exact h.fill hclient
      · cases move
  | arm =>
      simp only [threadStep] at move
      split at move
      · next value hclient =>
          obtain rfl := Option.some.inj move
          exact h.arm hclient
      · cases move
  | returns =>
      simp only [threadStep] at move
      split at move
      · next value hclient =>
          obtain ⟨woken, ht⟩ := Option.ite_none_right_eq_some.mp move
          obtain rfl := Option.some.inj ht
          exact h.return hclient woken
      · cases move
  | timeout ti =>
      obtain ⟨armed, ht⟩ := Option.ite_none_right_eq_some.mp move
      obtain rfl := Option.some.inj ht
      exact h.checkTimeout armed
  | deliver call =>
      cases threadDeliverCallback_delivery move with
      | idle waiting => exact h.deliverIdle waiting call
      | woken waiting _ => exact h.deliverWoken waiting call
      | resent waiting other =>
          exact h.deliverResent waiting call fun v hv => keeps v hv waiting other

/-- A buffer sent while it holds another value is a stale one. -/
theorem keepsBuffer_of_noStale {event : ThreadEvent} (h : ThreadOk s)
    (move : threadStep s event = some t) (fresh : NoStaleBuffer t) : KeepsBuffer s event := by
  cases event with
  | call _ | fill | arm | returns | timeout _ => trivial
  | deliver call =>
      intro value hclient hwaiting hother
      have hvalue : s.client.value? = some value := by rw [hclient]; rfl
      cases threadDeliverCallback_delivery move with
      | idle waiting =>
          rw [waiting] at hwaiting
          cases hwaiting
      | woken _ own => exact absurd own hother
      | resent _ _ =>
          by_cases hzero : s.msgSize = 0
          · exact .inl hzero
          · right
            have hown := fresh.own_value
            rw [ThreadState.udpSend, if_neg (show (s.moveOn call).msgSize ≠ 0 from hzero)] at hown
            obtain ⟨v, hopen, m, hm, hcarried⟩ := hown.1 _ rfl
            have hopen : openCall s.trace = some v := (openCall_told _ _ _).symm.trans hopen
            obtain rfl := Option.some.inj (hvalue.symm.trans (h.open_call.symm.trans hopen))
            cases hm
            exact ⟨hcarried.1, hcarried.2.1, hcarried.2.2⟩

theorem threadStart_ok {p : ProposerState} (idle : p.clientWaiting = false)
    (timers : p.timers = []) (trace : p.trace = []) : ThreadOk (threadStart p) := by
  have hsent : (threadStart p).sent = [] := by
    change p.trace.filterMap _ = []
    rw [trace]
    rfl
  have hnone : ∀ m, ¬ Sends (threadStart p).sent m := by
    intro m ⟨packet, hp, _⟩
    rw [hsent] at hp
    cases hp
  have htimers : ∀ ti, ti ∉ (threadStart p).timers := by
    intro ti hti
    change ti ∈ p.timers at hti
    rw [timers] at hti
    cases hti
  refine ⟨?_, fun _ => idle, ?_, ?_, ?_, fun ti hti => absurd hti (htimers ti),
    fun _ ti hti => absurd hti (htimers ti), ?_, ?_, fun _ m hm => absurd hm (hnone m),
    fun _ _ m hm => absurd hm (hnone m), fun m _ hm => absurd hm (hnone m)⟩
  · change openCall p.trace = none
    rw [trace]
    rfl
  · change Along SendsOwnValue p.trace
    rw [trace]
    trivial
  · intro v hv
    cases hv with
    | inl hv | inr hv => cases hv
  · intro v hv
    cases hv
  · intro hwaiting
    change p.clientWaiting = true at hwaiting
    rw [idle] at hwaiting
    cases hwaiting
  · intro hopen
    exact absurd rfl hopen

end Preservation

/-- No stale buffer is sent in a run exactly when the buffer is never moved on for a call
that has not filled it. -/
theorem no_stale_buffer_iff {cfg : Config} {propId : Int} {f : Bool}
    {start : ProposerState} {final : ThreadState} {events : List ThreadEvent}
    (entry : start = proposerInit cfg propId ∨ start = proposerInitAndDeliver cfg propId f)
    (run : events.foldlM threadStep (threadStart start) = some final) :
    Throughout threadStep NoStaleBuffer (threadStart start) events ↔
      Meets threadStep KeepsBuffer (threadStart start) events := by
  have hstart : ThreadOk (threadStart start) := by
    cases entry with
    | inl heq | inr heq =>
        subst heq
        exact threadStart_ok rfl rfl rfl
  refine throughout_iff_meets ThreadOk (fun _ h => h.noStaleBuffer) ?_ ?_ hstart run
  · intro s event t h move keeps
    exact h.step move keeps
  · intro s event t h move fresh
    exact keepsBuffer_of_noStale h move fresh

/-- A collision after the buffer is filled, and the value in the next instance. -/
def filledEvents : List ThreadEvent :=
  [.call [7], .fill, .arm, .deliver ⟨[8], 1, 0, 12, 2⟩, .deliver ⟨[7], 1, 1, 11, 1⟩, .returns]

theorem no_stale_buffer_filled :
    Throughout threadStep NoStaleBuffer (threadStart (proposerInit .shipped 1)) filledEvents := by
  have run : filledEvents.foldlM threadStep (threadStart (proposerInit .shipped 1)) = some _ := rfl
  refine (no_stale_buffer_iff (f := false) (.inl rfl) run).mpr ?_
  refine ⟨trivial, fun s hs => ?_⟩
  obtain rfl := Option.some.inj hs
  refine ⟨trivial, fun s hs => ?_⟩
  obtain rfl := Option.some.inj hs
  refine ⟨trivial, fun s hs => ?_⟩
  obtain rfl := Option.some.inj hs
  refine ⟨?_, fun s hs => ?_⟩
  · intro value hclient
    cases hclient
  · obtain rfl := Option.some.inj hs
    refine ⟨?_, fun s hs => ?_⟩
    · intro value hclient
      cases hclient
    · obtain rfl := Option.some.inj hs
      exact ⟨trivial, fun _ _ => trivial⟩

/-- In the second call somebody else's value is delivered before the buffer is filled: the
first value goes out for instance 2, and then the second. -/
def movedOnEvents : List ThreadEvent :=
  [.call [7], .fill, .arm, .deliver ⟨[7], 1, 0, 11, 1⟩, .returns, .call [8],
    .deliver ⟨[9], 1, 1, 12, 2⟩, .fill]

theorem movedOnEvents_sends_both :
    ∃ s, movedOnEvents.foldlM threadStep (threadStart (proposerInit .shipped 1)) = some s ∧
      s.sent = [acceptPacket ⟨2, 11, 1, 1, [8]⟩, acceptPacket ⟨2, 11, 1, 1, [7]⟩,
        acceptPacket ⟨0, 11, 1, 1, [7]⟩] ∧
      ¬ Along SendsOwnValue s.trace ∧
      ¬ ∀ m m', Sends s.sent m → Sends s.sent m' → m.iid = m'.iid → m.value = m'.value := by
  refine ⟨_, rfl, rfl, ?_, ?_⟩
  · -- the second send from the top, in the call of [8]
    intro own
    obtain ⟨value, hopen, m, hm, hvalue, _⟩ := own.2.1 _ rfl
    cases hopen
    cases hm
    cases hvalue
  · intro one
    have hsame := one ⟨2, 11, 1, 1, [8]⟩ ⟨2, 11, 1, 1, [7]⟩ ⟨_, List.mem_cons_self, rfl⟩
      ⟨_, List.mem_cons_of_mem _ List.mem_cons_self, rfl⟩ rfl
    exact absurd hsame (by decide)

end LibFastPaxos
