import LibFastPaxos.SystemInvariant

/-!
The calls of `proposer_submit_value` that a trace holds. A call is open until it
returns; while it is open it sends its value for one instance after the other, and it
moves on only when somebody else's value is delivered for the instance.
-/

namespace LibFastPaxos

open Transition

structure Call where
  value : Bytes
  /-- The instances for which its accept was sent. -/
  instances : List Int
  /-- What was delivered before it returned. -/
  delivered : List DeliverCall
  returned : Bool
  deriving DecidableEq, Repr

/-- What an effect adds to the open call. -/
def Call.note (c : Call) : ProposerEffect → Call
  | .submit _ | .clientDeliver _ => c
  | .returned => { c with returned := true }
  | .deliver d => { c with delivered := d :: c.delivered }
  | .send packet =>
      match packet.data with
      | .accept m => { c with instances := m.iid :: c.instances }
      | .prepare _ | .lsync _ | .promise _ | .learn _ | .anyval _ => c

/-- The open call takes note of an effect, if there is one. -/
def noteOpen (e : ProposerEffect) : List Call → List Call
  | [] => []
  | c :: cs => (if c.returned then c else c.note e) :: cs

/-- The calls of a trace, both newest first. -/
def callsOf : List ProposerEffect → List Call
  | [] => []
  | .submit value :: older =>
      { value := value, instances := [], delivered := [], returned := false } :: callsOf older
  | .returned :: older => noteOpen .returned (callsOf older)
  | .send packet :: older => noteOpen (.send packet) (callsOf older)
  | .deliver d :: older => noteOpen (.deliver d) (callsOf older)
  | .clientDeliver d :: older => noteOpen (.clientDeliver d) (callsOf older)

/-- What holds of every call, open or not. -/
structure Call.Settled (id : Int) (s : ProposerState) (c : Call) : Prop where
  delivered : ∀ d ∈ c.delivered, ProposerEffect.deliver d ∈ s.trace
  sent : ∀ iid ∈ c.instances, ∃ m, Sends s.sent m ∧ m.iid = iid ∧ m.value = c.value
  moved : ∀ iid ∈ c.instances, ∀ iid' ∈ c.instances, iid < iid' →
    ∃ d ∈ c.delivered, d.iid = iid ∧ d.proposer ≠ id
  woken : c.returned = true → (c.value.length : Int) ≤ paxosMaxValueSize →
    ∃ d ∈ c.delivered, d.proposer = id ∧ d.iid ∈ c.instances

/-- The call that waits, with its accept in the buffer. -/
structure Call.Waits (id : Int) (s : ProposerState) (c : Call) : Prop where
  opened : c.returned = false
  value_eq : c.value = s.amsg.value
  current : s.currentIid ∈ c.instances
  le_current : ∀ iid ∈ c.instances, iid ≤ s.currentIid
  passed : ∀ iid ∈ c.instances, iid < s.currentIid →
    ∃ d ∈ c.delivered, d.iid = iid ∧ d.proposer ≠ id

structure CallsKept (id : Int) (s : ProposerState) : Prop where
  settled : ∀ c ∈ callsOf s.trace, c.Settled id s
  waits : s.clientWaiting = true → ∃ c cs, callsOf s.trace = c :: cs ∧ c.Waits id s ∧
    ∀ b ∈ cs, b.returned = true
  closed : s.clientWaiting = false → ∀ c ∈ callsOf s.trace, c.returned = true

section Calls

variable {cfg : Config} {id : Int} {s t : ProposerState} {e : ProposerEffect} {c : Call}
  {cs calls : List Call} {older : List ProposerEffect}

theorem noteOpen_open (opened : c.returned = false) :
    noteOpen e (c :: cs) = c.note e :: cs := by
  simp [noteOpen, opened]

theorem noteOpen_closed (closed : ∀ c ∈ calls, c.returned = true) : noteOpen e calls = calls := by
  cases calls with
  | nil => rfl
  | cons c cs => simp [noteOpen, closed c List.mem_cons_self]

/-- Telling the client is no part of the call. -/
theorem callsOf_told (call : DeliverCall) :
    callsOf (s.told call ++ older) = callsOf older := by
  simp only [ProposerState.told]
  split
  · change noteOpen (.clientDeliver call) (callsOf older) = _
    cases callsOf older with
    | nil => rfl
    | cons c cs => simp [noteOpen, Call.note]
  · rfl

theorem Call.Settled.mono (h : c.Settled id s) (trace : s.trace ⊆ t.trace) : c.Settled id t := by
  refine ⟨fun d hd => trace (h.delivered d hd), ?_, h.moved, h.woken⟩
  intro iid hiid
  obtain ⟨m, hm, rest⟩ := h.sent iid hiid
  exact ⟨m, hm.mono (proposer_sent_subset trace), rest⟩

/-- A deliver call while the call is open. -/
theorem Call.Settled.hears (h : c.Settled id s) (trace : s.trace ⊆ t.trace) {d : DeliverCall}
    (heard : ProposerEffect.deliver d ∈ t.trace) :
    Call.Settled id t { c with delivered := d :: c.delivered } := by
  refine ⟨?_, (h.mono trace).sent, ?_, ?_⟩
  · intro d' hd'
    cases List.mem_cons.mp hd' with
    | inl heq => exact heq ▸ heard
    | inr hold => exact trace (h.delivered d' hold)
  · intro iid hmem iid' hmem' hlt
    obtain ⟨d', hd', rest⟩ := h.moved iid hmem iid' hmem' hlt
    exact ⟨d', List.mem_cons_of_mem d hd', rest⟩
  · intro returned small
    obtain ⟨d', hd', rest⟩ := h.woken returned small
    exact ⟨d', List.mem_cons_of_mem d hd', rest⟩

/-- The call sends its value for an instance that is not behind the others. -/
theorem Call.Settled.sends (h : c.Settled id s) (trace : s.trace ⊆ t.trace) {m : AcceptMsg}
    (sent : Sends t.sent m) (value : m.value = c.value) (newest : ∀ iid ∈ c.instances, iid ≤ m.iid)
    (passed : ∀ iid ∈ c.instances, iid < m.iid → ∃ d ∈ c.delivered, d.iid = iid ∧ d.proposer ≠ id) :
    Call.Settled id t { c with instances := m.iid :: c.instances } := by
  refine ⟨(h.mono trace).delivered, ?_, ?_, ?_⟩
  · intro iid hmem
    cases List.mem_cons.mp hmem with
    | inl heq => exact ⟨m, sent, heq.symm, value⟩
    | inr hold => exact (h.mono trace).sent iid hold
  · intro iid hmem iid' hmem' hlt
    cases List.mem_cons.mp hmem with
    | inl heq =>
        -- nothing lies above the new instance
        cases List.mem_cons.mp hmem' with
        | inl heq' => omega
        | inr hold' =>
            have := newest iid' hold'
            omega
    | inr hold =>
        cases List.mem_cons.mp hmem' with
        | inl heq' => exact passed iid hold (heq' ▸ hlt)
        | inr hold' => exact h.moved iid hold iid' hold' hlt
  · intro returned small
    obtain ⟨d, hd, hown, hmem⟩ := h.woken returned small
    exact ⟨d, hd, hown, List.mem_cons_of_mem m.iid hmem⟩

theorem Call.Settled.returns (h : c.Settled id s) (trace : s.trace ⊆ t.trace)
    (woken : (c.value.length : Int) ≤ paxosMaxValueSize →
      ∃ d ∈ c.delivered, d.proposer = id ∧ d.iid ∈ c.instances) :
    Call.Settled id t { c with returned := true } :=
  ⟨(h.mono trace).delivered, (h.mono trace).sent, h.moved, fun _ => woken⟩

/-- A call that has done nothing yet. -/
theorem Call.Settled.fresh (value : Bytes) :
    Call.Settled id s { value := value, instances := [], delivered := [], returned := false } :=
  ⟨nofun, nofun, nofun, nofun⟩

/-- Somebody else's value for the current instance makes the open call pass it. -/
theorem Call.Waits.pass_on (h : c.Waits id s) {call : DeliverCall} (iid : call.iid = s.currentIid)
    (other : call.proposer ≠ id) :
    ∀ i ∈ c.instances, ∃ d ∈ call :: c.delivered, d.iid = i ∧ d.proposer ≠ id := by
  intro i hi
  cases Int.lt_or_eq_of_le (h.le_current i hi) with
  | inl hlt =>
      obtain ⟨d, hd, rest⟩ := h.passed i hi hlt
      exact ⟨d, List.mem_cons_of_mem _ hd, rest⟩
  | inr heq => exact ⟨call, List.mem_cons_self, iid.trans heq.symm, other⟩

/-- The call that sends its accept for the instance it has come to. -/
theorem Call.Waits.of_sent (opened : c.returned = false) (value : c.value = t.amsg.value)
    {iid : Int} (current : iid = t.currentIid) (le : ∀ i ∈ c.instances, i ≤ t.currentIid)
    (passed : ∀ i ∈ c.instances, i < t.currentIid →
      ∃ d ∈ c.delivered, d.iid = i ∧ d.proposer ≠ id) :
    Call.Waits id t { c with instances := iid :: c.instances } := by
  subst current
  refine ⟨opened, value, List.mem_cons_self, ?_, ?_⟩
  · intro i hmem
    cases List.mem_cons.mp hmem with
    | inl heq => exact Int.le_of_eq heq
    | inr hold => exact le i hold
  · intro i hmem hlt
    cases List.mem_cons.mp hmem with
    | inl heq => exact absurd heq (Int.ne_of_lt hlt)
    | inr hold => exact passed i hold hlt

/-- The newest call is looked at again; the others have returned and stay as they are. -/
theorem CallsKept.of_newest (calls : callsOf t.trace = c :: cs)
    (older : ∀ b ∈ cs, b.Settled id s ∧ b.returned = true) (trace : s.trace ⊆ t.trace)
    (settled : c.Settled id t) (waits : t.clientWaiting = true → c.Waits id t)
    (ended : t.clientWaiting = false → c.returned = true) : CallsKept id t := by
  refine ⟨?_, fun waiting => ⟨c, cs, calls, waits waiting, fun b hb => (older b hb).2⟩, ?_⟩
  · rw [calls]
    intro b hb
    cases List.mem_cons.mp hb with
    | inl heq => exact heq ▸ settled
    | inr hold => exact (older b hold).1.mono trace
  · intro idle
    rw [calls]
    intro b hb
    cases List.mem_cons.mp hb with
    | inl heq => exact heq ▸ ended idle
    | inr hold => exact (older b hold).2

/-- The open call, and the ones before it. -/
theorem CallsKept.newest (h : CallsKept id s) (waiting : s.clientWaiting = true) :
    ∃ c cs, callsOf s.trace = c :: cs ∧ c.Waits id s ∧ c.Settled id s ∧
      ∀ b ∈ cs, b.Settled id s ∧ b.returned = true := by
  obtain ⟨c, cs, hcs, hopen, hbefore⟩ := h.waits waiting
  have hsettled := h.settled
  rw [hcs] at hsettled
  exact ⟨c, cs, hcs, hopen, hsettled c List.mem_cons_self,
    fun b hb => ⟨hsettled b (List.mem_cons_of_mem c hb), hbefore b hb⟩⟩

/-- A deliver call while a call is open. -/
theorem callsOf_delivered (before : callsOf s.trace = c :: cs) (opened : c.returned = false)
    (call : DeliverCall) : callsOf (s.told call ++ .deliver call :: s.trace) =
      { c with delivered := call :: c.delivered } :: cs := by
  rw [callsOf_told]
  change noteOpen (.deliver call) (callsOf s.trace) = _
  rw [before, noteOpen_open opened]
  rfl

/-! ### Steps -/

theorem CallsKept.submit (h : CallsKept id s)
    (idle : s.clientWaiting = false) (value : Bytes) :
    CallsKept id (proposerSubmitValue s value) := by
  have hclosed := h.closed idle
  have holder : ∀ b ∈ callsOf s.trace, b.Settled id s ∧ b.returned = true :=
    fun b hb => ⟨h.settled b hb, hclosed b hb⟩
  let c : Call := { value := value, instances := [], delivered := [], returned := false }
  by_cases big : (value.length : Int) > paxosMaxValueSize
  · have heq : proposerSubmitValue s value =
        { s with trace := .returned :: .submit value :: s.trace } := if_pos big
    have hcalls : callsOf (.returned :: .submit value :: s.trace) =
        { c with returned := true } :: callsOf s.trace := noteOpen_open rfl
    have htrace : s.trace ⊆ .returned :: .submit value :: s.trace :=
      List.subset_cons_of_subset _ (List.subset_cons_self _ _)
    have hfresh : c.Settled id s := .fresh value
    rw [heq]
    refine .of_newest hcalls holder htrace (hfresh.returns htrace fun small => ?_) ?_ (fun _ => rfl)
    · change (value.length : Int) ≤ _ at small
      omega
    · intro waiting
      rw [idle] at waiting
      cases waiting
  · let m : AcceptMsg :=
      { iid := s.currentIid, ballot := s.fixedBallot, valueSize := value.length
        proposerId := s.proposerId, value := value }
    let packet : PaxosMsg := { size := sizeofAcceptMsg + value.length, data := .accept m }
    have heq : proposerSubmitValue s value =
        { s with
          lastAcceptIid := s.currentIid
          lastAcceptHash := 1
          clientWaiting := true
          size := sizeofAcceptMsg + value.length
          amsg := m
          timers := ⟨s.currentIid, 1⟩ :: s.timers
          trace := .send packet :: .submit value :: s.trace } := if_neg big
    have hcalls : callsOf (.send packet :: .submit value :: s.trace) =
        { c with instances := [m.iid] } :: callsOf s.trace := noteOpen_open rfl
    have htrace : s.trace ⊆ .send packet :: .submit value :: s.trace :=
      List.subset_cons_of_subset _ (List.subset_cons_self _ _)
    have hfresh : c.Settled id s := .fresh value
    have hsettled := hfresh.sends (t := proposerSubmitValue s value) (m := m) (heq ▸ htrace)
      (heq ▸ ⟨packet, List.mem_cons_self, rfl⟩) rfl nofun nofun
    rw [heq] at hsettled ⊢
    exact .of_newest hcalls holder htrace hsettled
      (fun _ => .of_sent (c := c) rfl rfl rfl nofun nofun) nofun

theorem CallsKept.checkTimeout (h : CallsKept id s) (sound : ProposerSound cfg id s)
    (ti : TimeoutInfo) : CallsKept id (proposerCheckTimeout s ti) := by
  by_cases hmatch : s.clientWaiting = true ∧ ti.instanceId = s.lastAcceptIid ∧
      ti.hash = s.lastAcceptHash
  · obtain ⟨waiting, instance_eq, hash_eq⟩ := hmatch
    rw [proposerCheckTimeout_match waiting instance_eq hash_eq]
    obtain ⟨c, cs, hcs, hopen, hsettled, holder⟩ := h.newest waiting
    obtain ⟨hiid, hsent⟩ := sound.open_call waiting
    -- the accept goes out for the current instance once more
    let packet : PaxosMsg := { size := s.size, data := .accept s.amsg }
    have hcalls : callsOf (.send packet :: s.trace) =
        { c with instances := s.amsg.iid :: c.instances } :: cs := by
      change noteOpen (.send packet) (callsOf s.trace) = _
      rw [hcs, noteOpen_open hopen.opened]
      rfl
    have htrace : s.trace ⊆ .send packet :: s.trace := List.subset_cons_self _ _
    refine .of_newest hcalls holder htrace
      (hsettled.sends htrace ?_ hopen.value_eq.symm ?_ ?_) ?_ ?_
    · exact hsent.mono (List.subset_cons_self _ _)
    · exact fun iid hmem => hiid ▸ hopen.le_current iid hmem
    · exact fun iid hmem => hiid ▸ hopen.passed iid hmem
    · intro _
      apply Call.Waits.of_sent (c := c) hopen.opened
      · exact hopen.value_eq
      · exact hiid
      · exact hopen.le_current
      · exact hopen.passed
    · intro hidle
      rw [waiting] at hidle
      cases hidle
  · rw [proposerCheckTimeout_stale hmatch]
    refine ⟨fun c hc => (h.settled c hc).mono (List.Subset.refl _), ?_, h.closed⟩
    intro waiting
    obtain ⟨c, cs, hcs, hopen, hbefore⟩ := h.waits waiting
    exact ⟨c, cs, hcs,
      ⟨hopen.opened, hopen.value_eq, hopen.current, hopen.le_current, hopen.passed⟩, hbefore⟩

theorem CallsKept.deliver (h : CallsKept id s) (sound : ProposerSound cfg id s)
    {call : DeliverCall} (iid : call.iid = s.currentIid) (outcome : DeliverOutcome s call t) :
    CallsKept id t := by
  cases outcome with
  | idle waiting =>
      have hcalls : callsOf (.deliver call :: s.trace) = callsOf s.trace :=
        noteOpen_closed (h.closed waiting)
      refine ⟨?_, ?_, ?_⟩
      · change ∀ b ∈ callsOf (.deliver call :: s.trace), _
        rw [hcalls]
        exact fun b hb => (h.settled b hb).mono (List.subset_cons_self _ _)
      · intro hwaiting
        rw [waiting] at hwaiting
        cases hwaiting
      · change _ → ∀ b ∈ callsOf (.deliver call :: s.trace), _
        rw [hcalls]
        exact h.closed
  | woken waiting own =>
      obtain ⟨c, cs, hcs, hopen, hsettled, holder⟩ := h.newest waiting
      have hcalls : callsOf (.returned :: (s.told call ++ .deliver call :: s.trace)) =
          { c with delivered := call :: c.delivered, returned := true } :: cs := by
        change noteOpen .returned (callsOf (s.told call ++ .deliver call :: s.trace)) = _
        rw [callsOf_delivered hcs hopen.opened call]
        exact noteOpen_open hopen.opened
      have htrace : s.trace ⊆ .returned :: (s.told call ++ .deliver call :: s.trace) :=
        List.subset_cons_of_subset _ fun e he => mem_told he
      have hheard := hsettled.hears (t := { s with trace := _ }) htrace
        (List.mem_cons_of_mem _ (deliver_mem_told call s.trace))
      refine .of_newest hcalls holder htrace (hheard.returns (List.Subset.refl _) fun _ => ?_) nofun
        (fun _ => rfl)
      exact ⟨call, List.mem_cons_self, own.trans sound.id_eq, iid ▸ hopen.current⟩
  | resent waiting other =>
      obtain ⟨c, cs, hcs, hopen, hsettled, holder⟩ := h.newest waiting
      have hpassed := hopen.pass_on iid (fun heq => other (heq.trans sound.id_eq.symm))
      let m : AcceptMsg := { s.amsg with iid := s.currentIid + 1 }
      let packet : PaxosMsg := { size := s.size, data := .accept m }
      let heard : Call := { c with delivered := call :: c.delivered }
      have hcalls : callsOf (.send packet :: (s.told call ++ .deliver call :: s.trace)) =
          { heard with instances := m.iid :: c.instances } :: cs := by
        change noteOpen (.send packet) (callsOf (s.told call ++ .deliver call :: s.trace)) = _
        rw [callsOf_delivered hcs hopen.opened call]
        exact noteOpen_open hopen.opened
      have htrace : s.trace ⊆ .send packet :: (s.told call ++ .deliver call :: s.trace) :=
        List.subset_cons_of_subset _ fun e he => mem_told he
      have hheard : heard.Settled id { s with trace := _ } := hsettled.hears htrace
        (List.mem_cons_of_mem _ (deliver_mem_told call s.trace))
      have hbehind : ∀ i ∈ c.instances, i ≤ s.currentIid + 1 := by
        intro i hmem
        have := hopen.le_current i hmem
        omega
      refine .of_newest hcalls holder htrace ?_ ?_ ?_
      · apply hheard.sends (m := m)
        · exact List.Subset.refl _
        · exact ⟨packet, List.mem_cons_self, rfl⟩
        · exact hopen.value_eq.symm
        · exact hbehind
        · exact fun i hmem _ => hpassed i hmem
      · intro _
        apply Call.Waits.of_sent (c := heard) hopen.opened
        · exact hopen.value_eq
        · rfl
        · exact hbehind
        · exact fun i hmem _ => hpassed i hmem
      · intro hidle
        rw [waiting] at hidle
        cases hidle

theorem proposer_calls {role : Role} (range : ∀ id, role.installedId? = some id → 0 ≤ id)
    (h : Reachable (proposerSystem cfg role) anyStep s) :
    ∃ id, role.installedId? = some id ∧ ProposerSound cfg id s ∧ CallsKept id s := by
  induction h with
  | init start =>
      obtain ⟨id, hid, hsound⟩ := start_proposer_sound start
      refine ⟨id, hid, hsound, ?_⟩
      have htrace := start_trace start
      refine ⟨?_, ?_, ?_⟩
      · rw [htrace]
        exact nofun
      · intro hwaiting
        obtain ⟨-, packet, hpacket, -⟩ := hsound.open_call hwaiting
        rw [ProposerState.sent, htrace] at hpacket
        cases hpacket
      · rw [htrace]
        exact nofun
  | @step s t event before ok move ih =>
      obtain ⟨id, hid, hsound, hkept⟩ := ih
      refine ⟨id, hid, hsound.step (range id hid) move, ?_⟩
      cases event with
      | submit value =>
          obtain ⟨idle, ht⟩ := Option.ite_none_right_eq_some.mp move
          obtain rfl := Option.some.inj ht
          exact hkept.submit idle value
      | deliver call =>
          obtain ⟨hiid, outcome⟩ := proposerDeliverCallback_outcome move
          exact hkept.deliver hsound hiid outcome
      | timeout ti =>
          obtain ⟨-, ht⟩ := Option.ite_none_right_eq_some.mp move
          obtain rfl := Option.some.inj ht
          exact hkept.checkTimeout hsound ti

end Calls
end LibFastPaxos
