import LibFastPaxos.LearnerLog

/-!
Delivery over a whole run of one learner: the instances in order from 0, each
once, each call with what a quorum of acceptors has sent learns of, and never
one instance fewer than those for which a quorum has come together.
-/

namespace LibFastPaxos

/-- The bytes of the value. -/
def LearnMsg.carried (lmsg : LearnMsg) : Bytes := memcpy lmsg.value lmsg.valueSize

/-- A learn for the instance, ballot, proposer and value of the call. -/
structure LearnMsg.Supports (lmsg : LearnMsg) (call : DeliverCall) : Prop where
  iid : lmsg.iid = call.iid
  ballot : lmsg.ballot = call.ballot
  proposer : lmsg.proposerId = call.proposer
  size : lmsg.valueSize = call.size
  value : lmsg.carried = call.value

/-- A quorum of different acceptors has sent such learns. -/
def DeliverCall.Supported (cfg : Config) (events : List LearnerEvent) (call : DeliverCall) :
    Prop :=
  ∃ acceptors : List Nat, acceptors.Nodup ∧ cfg.quorum ≤ acceptors.length ∧
    ∀ a ∈ acceptors, a < cfg.nOfAcceptors ∧
      ∃ lmsg : LearnMsg, .learn lmsg ∈ events ∧ lmsg.acceptorId = a ∧ lmsg.Supports call

/-- Learns of one instance and ballot carry one value and one proposer. -/
def BallotsAgree (events : List LearnerEvent) : Prop :=
  ∀ l l', LearnerEvent.learn l ∈ events → .learn l' ∈ events → l.iid = l'.iid →
    l.ballot = l'.ballot →
    l.proposerId = l'.proposerId ∧ l.valueSize = l'.valueSize ∧ l.carried = l'.carried

/-- The calls made so far, oldest first, are for the instances from 0 on. -/
def InOrder (s : LearnerState) : Prop :=
  s.delivered.reverse.map DeliverCall.iid =
    (List.range (s.highestDelivered + 1).toNat).map fun (n : Nat) => (n : Int)

section Order

variable {cfg : Config} {s t : LearnerState}

theorem InOrder.turn (h : InOrder s) (low : -1 ≤ s.highestDelivered) (v : Bytes) :
    InOrder (s.turn cfg (s.highestDelivered + 1) v) := by
  have hnext : (s.highestDelivered + 1 + 1).toNat = (s.highestDelivered + 1).toNat + 1 := by
    omega
  have hlast : (((s.highestDelivered + 1).toNat : Nat) : Int) = s.highestDelivered + 1 := by
    omega
  simp only [InOrder, LearnerState.turn]
  simp only [List.reverse_cons, List.map_append, List.map_cons, List.map_nil, hnext,
    List.range_succ, hlast]
  rw [h]
  rfl

theorem InOrder.delivers {i : Int} (returns : DeliverReturns cfg s i t) (h : InOrder s)
    (low : -1 ≤ s.highestDelivered) (next : i = s.highestDelivered + 1) : InOrder t := by
  induction returns with
  | stop opened => exact h
  | @turn s t i v closed rest ih =>
      subst next
      refine ih (h.turn low v) ?_ rfl
      change -1 ≤ s.highestDelivered + 1
      omega

theorem InOrder.congr (h : InOrder s) (delivered : t.delivered = s.delivered)
    (highest : t.highestDelivered = s.highestDelivered) : InOrder t := by
  simp only [InOrder]
  rw [delivered, highest]
  exact h

theorem learnerRun_inOrder (cfg : Config) (events : List LearnerEvent) :
    InOrder (learnerRun cfg events) := by
  induction events using List.reverseRecOn with
  | nil => rfl
  | append_singleton before e ih =>
      rw [learnerRun_append]
      have htight := learnerRun_tight cfg before
      cases e with
      | learn lmsg =>
          obtain ⟨u, hcollected, hreturns⟩ := htight.handleLearn lmsg
          have hu := ih.congr hcollected.delivered hcollected.highest
          exact hu.delivers hreturns hcollected.sound.low (by rw [hcollected.highest])
      | lsyncTimer =>
          obtain ⟨packets, hpackets⟩ := lsyncCheck_sends cfg (learnerRun cfg before)
          exact ih.congr (by rw [learnerEvent, hpackets]) (by rw [learnerEvent, hpackets])

theorem learnerRun_suffix (cfg : Config) (before after : List LearnerEvent) :
    (learnerRun cfg before).delivered <:+ (learnerRun cfg (before ++ after)).delivered := by
  induction after using List.reverseRecOn with
  | nil => simp
  | append_singleton after e ih =>
      rw [← List.append_assoc, learnerRun_append]
      refine ih.trans ?_
      cases e with
      | learn lmsg =>
          have hsound := (learnerRun_tight cfg (before ++ after)).sound
          obtain ⟨-, new, hnew⟩ := hsound.learnerHandleLearnMsg lmsg trivial
          exact ⟨new, hnew.symm⟩
      | lsyncTimer =>
          obtain ⟨packets, hpackets⟩ := lsyncCheck_sends cfg (learnerRun cfg (before ++ after))
          rw [learnerEvent, hpackets]

/-- Where learns of one ballot agree, the quorum of a decision supports the call. -/
theorem DeliverCall.Decided.supported {events : List LearnerEvent} {call : DeliverCall}
    (agree : BallotsAgree events)
    (h : call.Decided cfg fun lmsg => .learn lmsg ∈ events) : call.Supported cfg events := by
  obtain ⟨⟨l, hl, hiid, hballot, hproposer, hsize, hvalue⟩, acceptors, hnodup, hall, hquorum⟩ := h
  refine ⟨acceptors, hnodup, hquorum, ?_⟩
  intro a ha
  obtain ⟨hlt, l', hl', hid, hiid', hballot'⟩ := hall a ha
  obtain ⟨hsame, hsameSize, hsameValue⟩ :=
    agree l' l hl' hl (hiid'.trans hiid.symm) (hballot'.trans hballot.symm)
  exact ⟨hlt, l', hl', hid, hiid', hballot', hsame.trans hproposer, hsameSize.trans hsize,
    hsameValue.trans hvalue.symm⟩

theorem BallotsAgree.prefix {before after : List LearnerEvent}
    (agree : BallotsAgree (before ++ after)) : BallotsAgree before :=
  fun l l' hl hl' => agree l l' (List.mem_append_left _ hl) (List.mem_append_left _ hl')

/-- `deliver_values` returns whenever it is called, the calls are for the instances 0, 1,
2, … in this order, and each is supported by the learns handled up to it. -/
theorem learner_delivers_in_order (events : List LearnerEvent) (agree : BallotsAgree events) :
    (∀ u i, 0 ≤ i → DeliverReturns cfg u i (deliverValues cfg u i)) ∧
      InOrder (learnerRun cfg events) ∧
      ∀ before after, events = before ++ after →
        (learnerRun cfg before).delivered <:+ (learnerRun cfg events).delivered ∧
          ∀ call ∈ (learnerRun cfg before).delivered, call.Supported cfg before := by
  refine ⟨fun u i => deliverValues_returns, learnerRun_inOrder cfg events, ?_⟩
  intro before after hevents
  subst hevents
  refine ⟨learnerRun_suffix cfg before after, ?_⟩
  intro call hcall
  exact ((learnerRun_sound before).decided call hcall).supported agree.prefix

end Order

/-- Learns of the three acceptors for one accept. -/
def decidedEvents : List LearnerEvent :=
  [0, 1, 2].map fun a =>
    .learn
      { acceptorId := a, iid := 0, ballot := 20, proposerId := 3, valueSize := 1, value := [7] }

theorem decidedEvents_agree : BallotsAgree decidedEvents := by
  have hall : ∀ l, LearnerEvent.learn l ∈ decidedEvents →
      l.proposerId = 3 ∧ l.valueSize = 1 ∧ l.carried = [7] := by
    intro l hl
    simp only [decidedEvents, List.map_cons, List.map_nil, List.mem_cons, LearnerEvent.learn.injEq,
      List.not_mem_nil, or_false] at hl
    obtain rfl | rfl | rfl := hl
    · exact ⟨rfl, rfl, rfl⟩
    · exact ⟨rfl, rfl, rfl⟩
    · exact ⟨rfl, rfl, rfl⟩
  intro l l' hl hl' _ _
  obtain ⟨hp, hs, hv⟩ := hall l hl
  obtain ⟨hp', hs', hv'⟩ := hall l' hl'
  exact ⟨hp.trans hp'.symm, hs.trans hs'.symm, hv.trans hv'.symm⟩

theorem learner_delivers_in_order_decided :
    (learnerRun .shipped decidedEvents).delivered =
        [{ value := [7], size := 1, iid := 0, ballot := 20, proposer := 3 }] ∧
      ∀ call ∈ (learnerRun .shipped decidedEvents).delivered,
        call.Supported .shipped decidedEvents :=
  ⟨by decide +kernel,
    ((learner_delivers_in_order decidedEvents decidedEvents_agree).2.2 decidedEvents []
      (List.append_nil _).symm).2⟩

/-! ### Quorums of kept learns -/

/-- An open instance has no quorum for any ballot. -/
def InstanceLog.Short (cfg : Config) (e : InstanceLog) : Prop :=
  e.closed = none → ∀ ballot, e.count cfg ballot < cfg.quorum

/-- At some time the newest learns kept for the instance had a quorum for one ballot. -/
def Assembled (cfg : Config) (events : List LearnerEvent) (iid : Int) : Prop :=
  ∃ before after ballot, events = before ++ after ∧
    cfg.quorum ≤ ((learnerRun cfg before).kept cfg iid).count cfg ballot

section Quorums

variable {cfg : Config} {s t : LearnerState} {e : InstanceLog}

theorem short_empty : InstanceLog.empty.Short cfg := by
  intro _ ballot
  have hpos := cfg.quorum_pos
  simpa [InstanceLog.count, InstanceLog.empty] using hpos

/-- A learn adds to the count of its own ballot only. -/
theorem count_store_le {lmsg : LearnMsg} {ballot : Int} (ne : ballot ≠ lmsg.ballot) :
    (e.store lmsg).count cfg ballot ≤ e.count cfg ballot := by
  have hsub : ((List.range cfg.nOfAcceptors).filter fun a =>
      ((e.store lmsg).learns a).any fun l => l.ballot = ballot).Sublist
      ((List.range cfg.nOfAcceptors).filter fun a =>
        (e.learns a).any fun l => l.ballot = ballot) := by
    apply List.monotone_filter_right
    intro a ha
    by_cases hown : a = lmsg.acceptorId.toNat
    · subst hown
      simp [InstanceLog.store, Ne.symm ne] at ha
    · simpa [InstanceLog.store, Function.update_of_ne hown] using ha
  have := hsub.length_le
  simp only [InstanceLog.count]
  omega

theorem InstanceLog.Short.learn (h : e.Short cfg) (lmsg : LearnMsg) :
    (e.learn cfg lmsg).Short cfg := by
  cases hclosed : e.closed with
  | some call => rwa [learn_of_closed (by simp [hclosed])]
  | none =>
      cases hfresh : e.fresh cfg lmsg with
      | false => rwa [learn_of_not_fresh hfresh]
      | true =>
          rw [learn_of_fresh hclosed hfresh]
          split
          · intro hnone
            cases hnone
          · next hquorum =>
              intro _ ballot
              by_cases hb : ballot = lmsg.ballot
              · subst hb
                omega
              · exact Int.lt_of_le_of_lt (count_store_le hb) (h hclosed ballot)

/-- The learn that closes an instance leaves a quorum for its ballot. -/
theorem quorum_of_learn_closed {lmsg : LearnMsg} (opened : e.closed = none)
    (closed : (e.learn cfg lmsg).closed.isSome) :
    cfg.quorum ≤ (e.learn cfg lmsg).count cfg lmsg.ballot := by
  cases hfresh : e.fresh cfg lmsg with
  | false =>
      rw [learn_of_not_fresh hfresh, opened] at closed
      cases closed
  | true =>
      rw [learn_of_fresh opened hfresh] at closed ⊢
      split at closed
      · next hquorum =>
          rw [if_pos hquorum]
          exact hquorum
      · rw [InstanceLog.store, opened] at closed
        cases closed

theorem learnerRun_short (cfg : Config) (events : List LearnerEvent) {i : Int}
    (undelivered : (learnerRun cfg events).highestDelivered < i) :
    ((learnerRun cfg events).kept cfg i).Short cfg := by
  induction events using List.reverseRecOn with
  | nil =>
      rw [(learnerRun_shows cfg []).kept i undelivered]
      exact short_empty
  | append_singleton before e ih =>
      rw [learnerRun_append] at undelivered ⊢
      obtain ⟨hle, hkept⟩ := (learnerRun_tight cfg before).event_kept e
      have hshort := ih (by omega)
      cases hkept i undelivered with
      | inl hsame => rwa [hsame]
      | inr hlearned =>
          obtain ⟨lmsg, -, -, hlearned⟩ := hlearned
          rw [hlearned]
          exact hshort.learn lmsg

theorem Assembled.append {events : List LearnerEvent} {i : Int} (h : Assembled cfg events i)
    (after : List LearnerEvent) : Assembled cfg (events ++ after) i := by
  obtain ⟨before, rest, ballot, rfl, hquorum⟩ := h
  exact ⟨before, rest ++ after, ballot, List.append_assoc _ _ _, hquorum⟩

theorem count_congr {e' : InstanceLog} (learns : e'.learns = e.learns) (ballot : Int) :
    e'.count cfg ballot = e.count cfg ballot := by
  simp only [InstanceLog.count]
  rw [learns]

/-- Whatever is closed or delivered had its quorum. -/
theorem learnerRun_assembled (cfg : Config) (events : List LearnerEvent) {i : Int}
    (nonneg : 0 ≤ i) (closed : i ≤ (learnerRun cfg events).highestDelivered ∨
      ((learnerRun cfg events).kept cfg i).closed.isSome) : Assembled cfg events i := by
  induction events using List.reverseRecOn with
  | nil =>
      cases closed with
      | inl hle =>
          have hle : i ≤ -1 := hle
          omega
      | inr hclosed =>
          have hlow : (learnerRun cfg []).highestDelivered < i := by
            change -1 < i
            omega
          rw [(learnerRun_shows cfg []).kept i hlow] at hclosed
          cases hclosed
  | append_singleton before e ih =>
      by_cases hold : i ≤ (learnerRun cfg before).highestDelivered ∨
          ((learnerRun cfg before).kept cfg i).closed.isSome
      · exact (ih hold).append [e]
      · obtain ⟨hhd, hopen⟩ := not_or.mp hold
        have hopen : ((learnerRun cfg before).kept cfg i).closed = none := by
          simpa using hopen
        cases e with
        | lsyncTimer =>
            obtain ⟨packets, hpackets⟩ := lsyncCheck_sends cfg (learnerRun cfg before)
            rw [learnerRun_append, learnerEvent, hpackets] at closed
            exact (ih closed).append [.lsyncTimer]
        | learn lmsg =>
            obtain ⟨u, hcollected, hreturns⟩ := (learnerRun_tight cfg before).handleLearn lmsg
            have hnext := hcollected.highest
            obtain ⟨-, -, hkept⟩ := hcollected.sound.delivers_kept hreturns (by rw [hnext])
            rw [learnerRun_append] at closed
            have hu : (u.kept cfg i).closed.isSome := by
              by_cases hlate : i ≤ (learnerHandleLearnMsg cfg (learnerRun cfg before)
                  lmsg).highestDelivered
              · exact hcollected.sound.delivers_closed hreturns (by rw [hnext]) (by omega) hlate
              · rw [← hkept i (by omega)]
                exact closed.resolve_left hlate
            have hresult := hcollected.kept i (by omega)
            by_cases hown : i = lmsg.iid ∧
                i < (learnerRun cfg before).highestDelivered + cfg.learnerArraySize.size
            · rw [if_pos hown] at hresult
              rw [hresult] at hu
              have hquorum := quorum_of_learn_closed hopen hu
              refine ⟨before ++ [.learn lmsg], [], lmsg.ballot, (List.append_nil _).symm, ?_⟩
              rw [learnerRun_append]
              have hlearns := delivers_learns hreturns i
              rw [hresult] at hlearns
              rw [learnerEvent, count_congr hlearns]
              exact hquorum
            · rw [if_neg hown] at hresult
              rw [hresult, hopen] at hu
              cases hu

/-- What is closed stays so until it is delivered. -/
theorem closed_until_delivered (before after : List LearnerEvent) {i : Int}
    (closed : ((learnerRun cfg before).kept cfg i).closed.isSome)
    (undelivered : (learnerRun cfg (before ++ after)).highestDelivered < i) :
    ((learnerRun cfg (before ++ after)).kept cfg i).closed.isSome := by
  induction after using List.reverseRecOn with
  | nil => simpa using closed
  | append_singleton after e ih =>
      rw [← List.append_assoc, learnerRun_append] at undelivered ⊢
      obtain ⟨hle, hkept⟩ := (learnerRun_tight cfg (before ++ after)).event_kept e
      have hclosed := ih (by omega)
      cases hkept i undelivered with
      | inl hsame => rwa [hsame]
      | inr hlearned =>
          obtain ⟨lmsg, -, -, hlearned⟩ := hlearned
          rw [hlearned, learn_of_closed hclosed]
          exact hclosed

theorem highestDelivered_mono (cfg : Config) (before after : List LearnerEvent) :
    (learnerRun cfg before).highestDelivered ≤
      (learnerRun cfg (before ++ after)).highestDelivered := by
  induction after using List.reverseRecOn with
  | nil => simp
  | append_singleton after e ih =>
      rw [← List.append_assoc, learnerRun_append]
      exact Int.le_trans ih ((learnerRun_tight cfg (before ++ after)).event_kept e).1

/-- After every event the next instance is open, an open instance of the window has no
quorum, and the instances delivered are those up to the first one that never had a quorum. -/
theorem learner_misses_nothing (cfg : Config) (events : List LearnerEvent) :
    isClosed ((learnerRun cfg events).slot cfg
        ((learnerRun cfg events).highestDelivered + 1)) = false ∧
      (∀ i, (learnerRun cfg events).InWindow cfg i →
        ((learnerRun cfg events).kept cfg i).closed = none →
        ∀ ballot, ((learnerRun cfg events).kept cfg i).count cfg ballot < cfg.quorum) ∧
      (∀ i, 0 ≤ i → i ≤ (learnerRun cfg events).highestDelivered → Assembled cfg events i) ∧
      ¬Assembled cfg events ((learnerRun cfg events).highestDelivered + 1) := by
  have htight := learnerRun_tight cfg events
  refine ⟨htight.next_open, ?_, ?_, ?_⟩
  · intro i hwindow hopen
    exact learnerRun_short cfg events hwindow.1 hopen
  · intro i hnonneg hle
    exact learnerRun_assembled cfg events hnonneg (.inl hle)
  · intro ⟨before, after, ballot, hevents, hquorum⟩
    subst hevents
    have hmono := highestDelivered_mono cfg before after
    cases hclosed : ((learnerRun cfg before).kept cfg
        ((learnerRun cfg (before ++ after)).highestDelivered + 1)).closed with
    | none =>
        have hshort := learnerRun_short cfg before (by omega) hclosed ballot
        omega
    | some call =>
        have hstill := closed_until_delivered before after (by rw [hclosed]; rfl) (by omega)
        rw [htight.next_closed] at hstill
        cases hstill

end Quorums
end LibFastPaxos
