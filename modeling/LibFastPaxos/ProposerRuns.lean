import LibFastPaxos.Proposer
import LibFastPaxos.Lib.History

/-!
Runs of one proposer. The accept of a call goes out for the current instance
with the fixed ballot, moves on with it when somebody else's value is delivered,
and is the only one the proposer ever sends for that instance.
-/

namespace LibFastPaxos

open History

/-- The trace of telling the client. -/
def ProposerState.told (s : ProposerState) (call : DeliverCall) : List ProposerEffect :=
  if s.clientDeliverFunc then [.clientDeliver call] else []

/-- What the deliver callback can do. -/
inductive DeliverOutcome (s : ProposerState) (call : DeliverCall) : ProposerState → Prop where
  | idle (waiting : s.clientWaiting = false) :
      DeliverOutcome s call
        { s with currentIid := s.currentIid + 1, trace := .deliver call :: s.trace }
  | woken (waiting : s.clientWaiting = true) (own : call.proposer = s.proposerId) :
      DeliverOutcome s call
        { s with
          currentIid := s.currentIid + 1
          clientWaiting := false
          trace := .returned :: (s.told call ++ .deliver call :: s.trace) }
  | resent (waiting : s.clientWaiting = true) (other : call.proposer ≠ s.proposerId) :
      DeliverOutcome s call
        { s with
          currentIid := s.currentIid + 1
          amsg := { s.amsg with iid := s.currentIid + 1 }
          lastAcceptIid := s.currentIid
          lastAcceptHash := s.lastAcceptHash + 1
          timers := ⟨s.currentIid + 1, s.lastAcceptHash + 1⟩ :: s.timers
          trace :=
            .send { size := s.size, data := .accept { s.amsg with iid := s.currentIid + 1 } } ::
              (s.told call ++ .deliver call :: s.trace) }

theorem callClient_eq (s : ProposerState) (call : DeliverCall) :
    s.callClient call = { s with trace := s.told call ++ s.trace } := by
  simp only [ProposerState.callClient, ProposerState.told]
  split <;> rfl

theorem proposerDeliverCallback_outcome {s t : ProposerState} {call : DeliverCall}
    (run : proposerDeliverCallback s call = some t) :
    call.iid = s.currentIid ∧ DeliverOutcome s call t := by
  simp only [proposerDeliverCallback, callClient_eq, ProposerState.emit] at run
  by_cases hiid : s.currentIid = call.iid
  · rw [if_neg (by simpa using hiid)] at run
    refine ⟨hiid.symm, ?_⟩
    cases hwaiting : s.clientWaiting with
    | false =>
        rw [if_pos hwaiting] at run
        obtain rfl := Option.some.inj run
        exact .idle hwaiting
    | true =>
        rw [if_neg (by simp [hwaiting])] at run
        by_cases hown : s.proposerId = call.proposer
        · rw [if_pos hown] at run
          obtain rfl := Option.some.inj run
          exact .woken hwaiting hown.symm
        · rw [if_neg hown] at run
          obtain rfl := Option.some.inj run
          exact .resent hwaiting (Ne.symm hown)
  · rw [if_pos hiid] at run
    cases run

/-! ### What is sent -/

/-- An accept as the proposer with this id sends it. -/
structure AcceptMsg.OwnedBy (cfg : Config) (id : Int) (m : AcceptMsg) : Prop where
  wellFormed : m.WellFormed
  ballot_eq : m.ballot = cfg.maxProposers + id
  proposerId_eq : m.proposerId = id

structure ProposerSound (cfg : Config) (id : Int) (s : ProposerState) : Prop where
  id_eq : s.proposerId = id
  ballot_eq : s.fixedBallot = cfg.maxProposers + id
  current_nonneg : 0 ≤ s.currentIid
  packets : ∀ packet ∈ s.sent, packet.data.WellFormed
  own : ∀ m, Sends s.sent m → m.OwnedBy cfg id
  submitted : ∀ m, Sends s.sent m → ProposerEffect.submit m.value ∈ s.trace
  open_call : s.clientWaiting = true → s.amsg.iid = s.currentIid ∧ Sends s.sent s.amsg
  placed : ∀ m, Sends s.sent m →
    m.iid < s.currentIid ∨ (s.clientWaiting = true ∧ m = s.amsg)
  one_accept : ∀ m m', Sends s.sent m → Sends s.sent m' → m.iid = m'.iid → m = m'

section Sent

variable {s t : ProposerState}

/-- The deliver callback's own notes are no datagrams. -/
theorem told_sent (call : DeliverCall) (trace : List ProposerEffect) :
    (s.told call ++ .deliver call :: trace).filterMap ProposerEffect.sent? =
      trace.filterMap ProposerEffect.sent? := by
  simp only [ProposerState.told]
  split <;> rfl

theorem mem_told {call : DeliverCall} {trace : List ProposerEffect} {e : ProposerEffect}
    (h : e ∈ trace) : e ∈ s.told call ++ .deliver call :: trace :=
  List.mem_append_right _ (List.mem_cons_of_mem _ h)

theorem deliver_mem_told (call : DeliverCall) (trace : List ProposerEffect) :
    ProposerEffect.deliver call ∈ s.told call ++ .deliver call :: trace :=
  List.mem_append_right _ List.mem_cons_self

end Sent

section Preservation

variable {cfg : Config} {id : Int} {s t : ProposerState}

theorem ProposerSound.sent_le (h : ProposerSound cfg id s) {m : AcceptMsg}
    (hm : Sends s.sent m) : m.iid ≤ s.currentIid := by
  cases h.placed m hm with
  | inl hlt => exact Int.le_of_lt hlt
  | inr heq =>
      obtain ⟨hwaiting, rfl⟩ := heq
      exact Int.le_of_eq (h.open_call hwaiting).1

theorem ProposerSound.sent_lt_of_idle (h : ProposerSound cfg id s)
    (idle : s.clientWaiting = false) {m : AcceptMsg} (hm : Sends s.sent m) :
    m.iid < s.currentIid := by
  refine (h.placed m hm).resolve_right fun ⟨hwaiting, _⟩ => ?_
  rw [idle] at hwaiting
  cases hwaiting

/-- The buffer goes out for a new instance. -/
theorem ProposerSound.fresh (h : ProposerSound cfg id s) (ids : t.proposerId = s.proposerId)
    (ballots : t.fixedBallot = s.fixedBallot) (current : s.currentIid ≤ t.currentIid)
    (waiting : t.clientWaiting = true) (owned : t.amsg.OwnedBy cfg id)
    (iid : t.amsg.iid = t.currentIid) (size : Int)
    (sent : t.sent = { size := size, data := .accept t.amsg } :: s.sent)
    (trace : ∀ e ∈ s.trace, e ∈ t.trace)
    (submitted : ProposerEffect.submit t.amsg.value ∈ t.trace)
    (older : ∀ m, Sends s.sent m → m.iid < t.currentIid) : ProposerSound cfg id t := by
  have hsends : ∀ m, Sends t.sent m ↔ m = t.amsg ∨ Sends s.sent m := by
    intro m
    rw [sent, sends_cons]
    simp [eq_comm]
  refine ⟨ids.trans h.id_eq, ballots.trans h.ballot_eq,
    Int.le_trans h.current_nonneg current, ?_, ?_, ?_, ?_, ?_, ?_⟩
  · intro packet hp
    rw [sent] at hp
    cases List.mem_cons.mp hp with
    | inl heq =>
        subst heq
        exact owned.wellFormed
    | inr hold => exact h.packets packet hold
  · intro m hm
    cases (hsends m).mp hm with
    | inl heq => exact heq ▸ owned
    | inr hold => exact h.own m hold
  · intro m hm
    cases (hsends m).mp hm with
    | inl heq => exact heq ▸ submitted
    | inr hold => exact trace _ (h.submitted m hold)
  · intro _
    exact ⟨iid, (hsends _).mpr (.inl rfl)⟩
  · intro m hm
    cases (hsends m).mp hm with
    | inl heq => exact .inr ⟨waiting, heq⟩
    | inr hold => exact .inl (older m hold)
  · intro m m' hm hm' hiid
    cases (hsends m).mp hm with
    | inl heq =>
        cases (hsends m').mp hm' with
        | inl heq' => exact heq.trans heq'.symm
        | inr hold' =>
            have := older m' hold'
            rw [heq] at hiid
            omega
    | inr hold =>
        cases (hsends m').mp hm' with
        | inl heq' =>
            have := older m hold
            rw [heq'] at hiid
            omega
        | inr hold' => exact h.one_accept m m' hold hold' hiid

/-- Nothing new goes out: the same accepts, and an instance that has not gone back. -/
theorem ProposerSound.quiet (h : ProposerSound cfg id s) (ids : t.proposerId = s.proposerId)
    (ballots : t.fixedBallot = s.fixedBallot) (current : s.currentIid ≤ t.currentIid)
    (packets : ∀ packet ∈ t.sent, packet.data.WellFormed)
    (sent : ∀ m, Sends t.sent m ↔ Sends s.sent m) (trace : ∀ e ∈ s.trace, e ∈ t.trace)
    (placed : ∀ m, Sends s.sent m →
      m.iid < t.currentIid ∨ (t.clientWaiting = true ∧ m = t.amsg))
    (open_call : t.clientWaiting = true → t.amsg.iid = t.currentIid ∧ Sends s.sent t.amsg) :
    ProposerSound cfg id t := by
  refine ⟨ids.trans h.id_eq, ballots.trans h.ballot_eq,
    Int.le_trans h.current_nonneg current, packets, ?_, ?_, ?_, ?_, ?_⟩
  · intro m hm
    exact h.own m ((sent m).mp hm)
  · intro m hm
    exact trace _ (h.submitted m ((sent m).mp hm))
  · intro hwaiting
    obtain ⟨hiid, hsent⟩ := open_call hwaiting
    exact ⟨hiid, (sent _).mpr hsent⟩
  · intro m hm
    exact placed m ((sent m).mp hm)
  · intro m m' hm hm'
    exact h.one_accept m m' ((sent m).mp hm) ((sent m').mp hm')

theorem ProposerSound.deliver (h : ProposerSound cfg id s) {call : DeliverCall}
    (outcome : DeliverOutcome s call t) : ProposerSound cfg id t := by
  have hnext : s.currentIid ≤ s.currentIid + 1 := by omega
  cases outcome with
  | idle waiting =>
      refine h.quiet rfl rfl hnext h.packets (fun _ => Iff.rfl)
        (fun e he => List.mem_cons_of_mem _ he) ?_ ?_
      · intro m hm
        have := h.sent_lt_of_idle waiting hm
        left
        dsimp only
        omega
      · intro hwaiting
        rw [waiting] at hwaiting
        cases hwaiting
  | woken waiting own =>
      have hsent : ProposerState.sent
          { s with
            currentIid := s.currentIid + 1
            clientWaiting := false
            trace := .returned :: (s.told call ++ .deliver call :: s.trace) } = s.sent :=
        told_sent call s.trace
      refine h.quiet rfl rfl hnext ?_ ?_ (fun e he => List.mem_cons_of_mem _ (mem_told he)) ?_ ?_
      · rw [hsent]
        exact h.packets
      · intro m
        rw [hsent]
      · intro m hm
        have := h.sent_le hm
        left
        dsimp only
        omega
      · intro hwaiting
        cases hwaiting
  | resent waiting other =>
      obtain ⟨hiid, hsent⟩ := h.open_call waiting
      have howned := h.own _ hsent
      refine h.fresh rfl rfl hnext waiting ?_ rfl s.size ?_
        (fun e he => List.mem_cons_of_mem _ (mem_told he)) ?_ ?_
      · have hwf := howned.wellFormed
        have := h.current_nonneg
        exact ⟨⟨by dsimp only; omega, hwf.ballot_nonneg, hwf.valueSize_eq, hwf.valueSize_le⟩,
          howned.ballot_eq, howned.proposerId_eq⟩
      · exact congrArg (List.cons _) (told_sent call s.trace)
      · have hsubmit := h.submitted _ hsent
        exact List.mem_cons_of_mem _ (mem_told hsubmit)
      · intro m hm
        have := h.sent_le hm
        dsimp only
        omega

theorem ProposerSound.checkTimeout (h : ProposerSound cfg id s) (ti : TimeoutInfo) :
    ProposerSound cfg id (proposerCheckTimeout s ti) := by
  simp only [proposerCheckTimeout]
  split
  · next hretry =>
      -- the buffer holds the accept of the open call, which has been sent before
      obtain ⟨hiid, hsent⟩ := h.open_call hretry.1
      refine h.quiet rfl rfl (Int.le_refl _) ?_ ?_ (fun e he => List.mem_cons_of_mem _ he)
        h.placed fun _ => ⟨hiid, hsent⟩
      · intro packet hp
        cases List.mem_cons.mp hp with
        | inl heq =>
            subst heq
            exact (h.own _ hsent).wellFormed
        | inr hold => exact h.packets packet hold
      · intro m
        constructor
        · intro hm
          cases sends_cons.mp hm with
          | inl heq =>
              cases heq
              exact hsent
          | inr hold => exact hold
        · intro hm
          exact sends_cons.mpr (.inr hm)
  · exact h.quiet rfl rfl (Int.le_refl _) h.packets (fun _ => Iff.rfl) (fun _ he => he)
      h.placed h.open_call

theorem ProposerSound.submit (h : ProposerSound cfg id s) (id_nonneg : 0 ≤ id)
    (idle : s.clientWaiting = false) (value : Bytes) :
    ProposerSound cfg id (proposerSubmitValue s value) := by
  simp only [proposerSubmitValue]
  split
  · exact h.quiet rfl rfl (Int.le_refl _) h.packets (fun _ => Iff.rfl)
      (fun e he => List.mem_cons_of_mem _ (List.mem_cons_of_mem _ he)) h.placed h.open_call
  · next hsize =>
      have hpos := cfg.maxProposers_pos
      have hballot := h.ballot_eq
      refine h.fresh rfl rfl (Int.le_refl _) rfl ?_ rfl
        (sizeofAcceptMsg + value.length) rfl
        (fun e he => List.mem_cons_of_mem _ (List.mem_cons_of_mem _ he)) ?_ ?_
      · refine ⟨⟨h.current_nonneg, ?_, rfl, ?_⟩, h.ballot_eq, h.id_eq⟩
        · change 0 ≤ s.fixedBallot
          omega
        · change (value.length : Int) ≤ paxosMaxValueSize
          omega
      · exact List.mem_cons_of_mem _ List.mem_cons_self
      · exact fun m hm => h.sent_lt_of_idle idle hm

theorem proposerInit_sound (cfg : Config) (id : Int) :
    ProposerSound cfg id (proposerInit cfg id) := by
  refine ⟨rfl, rfl, Int.le_refl _, ?_, ?_, ?_, ?_, ?_, ?_⟩
  · intro packet hp
    cases hp
  · intro m ⟨packet, hp, _⟩
    cases hp
  · intro m ⟨packet, hp, _⟩
    cases hp
  · intro hwaiting
    cases hwaiting
  · intro m ⟨packet, hp, _⟩
    cases hp
  · intro m m' ⟨packet, hp, _⟩
    cases hp

/-- The other entry point differs in the client's deliver function and in the id. -/
theorem proposerInitAndDeliver_sound (propId : Int) (f : Bool) :
    ProposerSound cfg proposerStatics.proposerId (proposerInitAndDeliver cfg propId f) :=
  let h := proposerInit_sound cfg proposerStatics.proposerId
  ⟨h.id_eq, h.ballot_eq, h.current_nonneg, h.packets, h.own, h.submitted, h.open_call, h.placed,
    h.one_accept⟩

end Preservation
end LibFastPaxos
