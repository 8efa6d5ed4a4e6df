import LibFastPaxos.LeaderPrepares
import LibFastPaxos.LeaderBallots

/-!
The ballots under which a leader prepares an instance, over whole runs. Opening it,
a retry and a restart each raise the ballot of its record, by `MAX_PROPOSERS` and for
as long as the 32-bit `int` has room.
-/

namespace LibFastPaxos

open Transition Packing

/-- The leader takes the event; `none` is the failed assertion of `phase2_check_cb`. -/
def leaderEvent (cfg : Config) (s : LeaderState) : LeaderEvent → Option LeaderState
  | .promises batch => some (leaderHandlePromiseMsg cfg s batch)
  | .phase1Timer => some (phase1CheckCb cfg s)
  | .phase2Timer => phase2CheckCb cfg s
  | .deliver iid => some (leaderDeliverValue s iid)

/-- The prepares that the event adds to the send buffer, in order. -/
def LeaderState.issues (cfg : Config) (s : LeaderState) : LeaderEvent → List PrepareMsg
  | .phase1Timer => s.checkEntries cfg
  | .phase2Timer =>
      if s.currentIid = s.p2CurrentIid then
        [{ iid := s.currentIid, ballot := cfg.ballotNext (s.slot cfg s.currentIid).ballot }]
      else []
  | .promises _ | .deliver _ => []

/-- Entries of a packet that goes out a second time. -/
def LeaderState.repeats (cfg : Config) (s : LeaderState) : LeaderEvent → List PrepareMsg
  | .phase1Timer => (s.flushedAgain cfg).flatten
  | .promises _ | .phase2Timer | .deliver _ => []

/-- A leader and the prepares that it has issued so far, oldest first. -/
structure IssuingLeader where
  state : LeaderState
  issued : List PrepareMsg

/-- `leader_init` before it opens the first instances. -/
def leaderStarted (propId : Int) : LeaderState :=
  LeaderState.initPrepares
    { leaderStatics with
      proposerId := propId
      p1info :=
        { pendingCount := 0, readyCount := 0, highestReady := -1, firstToCheck := 0
          lastToCheck := 0 } }

def issuingInit (cfg : Config) (propId : Int) : IssuingLeader where
  state := leaderInit cfg propId
  issued := (leaderStarted propId).openEntries cfg

def issuingEvent (cfg : Config) (r : IssuingLeader) (event : LeaderEvent) :
    Option IssuingLeader :=
  (leaderEvent cfg r.state event).map fun t =>
    { state := t, issued := r.issued ++ r.state.issues cfg event }

/-- Per instance the ballots rise, stay above those of the proposers and name the leader. -/
structure BallotsRise (cfg : Config) (propId : Int) (issued : List PrepareMsg) : Prop where
  increasing : issued.Pairwise fun p q => p.iid = q.iid → p.ballot < q.ballot
  low : ∀ p ∈ issued, cfg.minBallot ≤ p.ballot
  owner : ∀ p ∈ issued, p.ballot % cfg.maxProposers = propId

/-- No ballot that the event raises runs over the end of the `int`. -/
def RaisesFit (cfg : Config) (r : IssuingLeader) : LeaderEvent → Prop
  | .phase1Timer => ∀ k, k < cfg.proposerArraySize.size →
      (r.state.proposerArray k).status = .p1Pending →
        (r.state.proposerArray k).ballot + cfg.maxProposers ≤ 2147483647
  | .phase2Timer => r.state.currentIid = r.state.p2CurrentIid →
      (r.state.slot cfg r.state.currentIid).ballot + cfg.maxProposers ≤ 2147483647
  | .promises _ | .deliver _ => True

instance (cfg : Config) (r : IssuingLeader) : (event : LeaderEvent) →
    Decidable (RaisesFit cfg r event)
  | .phase1Timer => inferInstanceAs (Decidable (∀ k, k < _ → _ → _))
  | .phase2Timer => inferInstanceAs (Decidable (_ → _))
  | .promises _ | .deliver _ => isTrue trivial

/-! ### What is issued is what is sent -/

section Sent

variable {cfg : Config} {s t u : LeaderState}

/-- Nothing that was sent on the way prepares an instance. -/
def PreparesNothing (s t : LeaderState) : Prop :=
  ∃ new, t.sent = new ++ s.sent ∧ ∀ packet ∈ new, packet.prepared = []

theorem PreparesNothing.refl (s : LeaderState) : PreparesNothing s s :=
  ⟨[], rfl, fun _ h => by cases h⟩

theorem PreparesNothing.trans (h : PreparesNothing s t) (h' : PreparesNothing t u) :
    PreparesNothing s u := by
  obtain ⟨new, hsent, hnew⟩ := h
  obtain ⟨new', hsent', hnew'⟩ := h'
  refine ⟨new' ++ new, by rw [hsent', hsent, List.append_assoc], ?_⟩
  intro packet hpacket
  cases List.mem_append.mp hpacket with
  | inl hlate => exact hnew' packet hlate
  | inr hearly => exact hnew packet hearly

theorem PreparesNothing.one (packet : PaxosMsg) (prepared : packet.prepared = [])
    (sent : t.sent = packet :: s.sent) : PreparesNothing s t := by
  refine ⟨[packet], sent, ?_⟩
  intro p hp
  rw [List.mem_singleton.mp hp]
  exact prepared

theorem phase2Instance_preparesNothing (cfg : Config) (s : LeaderState) (i : Int) :
    PreparesNothing s (phase2Instance cfg s i) := by
  unfold phase2Instance
  dsimp only
  split
  · exact .refl s
  · split
    · simp only [appendAnymsgToBuffer]
      split <;> split
      · exact .one _ rfl rfl
      · exact .refl s
      · exact .one _ rfl rfl
      · exact .refl s
    · exact .one _ rfl rfl

theorem leaderHandlePromiseMsg_preparesNothing (cfg : Config) (s : LeaderState)
    (batch : PromiseBatchMsg) : PreparesNothing s (leaderHandlePromiseMsg cfg s batch) := by
  have hstored : PreparesNothing s (storePromises cfg s batch) :=
    ⟨[], storePromises_sent cfg s batch, fun _ h => by cases h⟩
  rw [leaderHandlePromiseMsg_eq]
  refine executePhase2_keeps (PreparesNothing s) ?_ ?_ ?_ hstored _ _
  · exact fun u i hu => hu.trans (phase2Instance_preparesNothing cfg u i)
  · exact fun u hu => hu.trans (.refl u)
  · exact fun u hu => hu.trans (.one _ rfl rfl)

/-- The packets of an event hold what it issues, and what goes out a second time. -/
theorem leaderEvent_issues {event : LeaderEvent} (run : leaderEvent cfg s event = some t) :
    ∃ packets : List PaxosMsg, t.sent = packets.reverse ++ s.sent ∧
      packets.flatMap PaxosMsg.prepared = s.issues cfg event ++ s.repeats cfg event := by
  have quiet : PreparesNothing s t → ∃ packets : List PaxosMsg,
      t.sent = packets.reverse ++ s.sent ∧ packets.flatMap PaxosMsg.prepared = [] := by
    intro ⟨new, hsent, hnew⟩
    refine ⟨new.reverse, by rw [List.reverse_reverse, hsent], ?_⟩
    exact List.flatMap_eq_nil_iff.mpr fun packet h => hnew packet (List.mem_reverse.mp h)
  cases event with
  | promises batch =>
      obtain rfl := Option.some.inj run
      exact quiet (leaderHandlePromiseMsg_preparesNothing cfg s batch)
  | phase1Timer =>
      obtain rfl := Option.some.inj run
      exact ⟨_, s.phase1CheckCb_sent cfg, checkPackets_prepared cfg s⟩
  | phase2Timer =>
      have run : phase2CheckCb cfg s = some t := run
      simp only [LeaderState.issues, LeaderState.repeats, List.append_nil]
      unfold phase2CheckCb at run
      split at run
      · next stuck =>
          dsimp only at run
          split at run
          · cases run
          · next own =>
              have own : (s.slot cfg s.currentIid).iid = s.currentIid := Decidable.not_not.mp own
              let u := { s.setSlot cfg s.currentIid ((s.slot cfg s.currentIid).restarted cfg) with
                p1info := s.p1info.putBack (s.slot cfg s.currentIid).status }
              have hadd := addPrepareToBuffer_filled (s := u)
                (p := { closed := [], filling := [] }) (by decide) (s.slot cfg s.currentIid).iid
                (cfg.ballotNext (s.slot cfg s.currentIid).ballot)
              have ht := congrArg (fun v => v.flushPrepares.sent) hadd
              obtain rfl := Option.some.inj run
              refine ⟨[preparePacket [{ iid := (s.slot cfg s.currentIid).iid
                                        ballot := cfg.ballotNext
                                          (s.slot cfg s.currentIid).ballot }]], ht, ?_⟩
              rw [if_pos stuck, own, List.flatMap_singleton, prepared_preparePacket]
      · next moved =>
          obtain rfl := Option.some.inj run
          rw [if_neg moved]
          exact quiet (.refl s)
  | deliver iid =>
      obtain rfl := Option.some.inj run
      exact quiet (.refl s)

theorem leaderInit_issues (cfg : Config) (propId : Int) :
    ∃ packets : List PaxosMsg, (leaderInit cfg propId).sent = packets.reverse ∧
      packets.flatMap PaxosMsg.prepared = (issuingInit cfg propId).issued := by
  obtain ⟨u, hu⟩ := executePhase1_filled cfg (leaderStarted propId)
    (p := { closed := [], filling := [] }) (by decide)
  refine ⟨_, (congrArg LeaderState.sent hu).trans (List.append_nil _), ?_⟩
  rw [flatMap_prepared, Packer.flatten_pushAll]
  rfl

/-- What goes out a second time was issued by the same event. -/
theorem repeats_subset (cfg : Config) (s : LeaderState) (event : LeaderEvent) :
    s.repeats cfg event ⊆ s.issues cfg event := by
  cases event with
  | promises _ | phase2Timer | deliver _ => exact List.nil_subset _
  | phase1Timer =>
      simp only [LeaderState.repeats, LeaderState.flushedAgain]
      split
      · rw [List.flatten_singleton]
        exact fun prep h => checkPacker_filling_subset h
      · exact List.nil_subset _

/-- Over a whole run the prepares that were issued are those in the packets that were sent. -/
theorem issued_iff_sent {propId : Int} {events : List LeaderEvent} {r : IssuingLeader}
    (run : events.foldlM (issuingEvent cfg) (issuingInit cfg propId) = some r)
    (prep : PrepareMsg) :
    prep ∈ r.issued ↔ ∃ packet ∈ r.state.sent, prep ∈ packet.prepared := by
  have hmeets : ∀ r, Meets (issuingEvent cfg) anyStep r events :=
    fun r => Meets.of_forall (fun _ _ => trivial) events r
  refine Meets.invariant (P := fun _ => True)
    (fun r => prep ∈ r.issued ↔ ∃ packet ∈ r.state.sent, prep ∈ packet.prepared) ?_
    (fun _ _ => trivial) ?_ (hmeets _) run
  · intro r event r' _ h _ move
    obtain ⟨t, ht, rfl⟩ := Option.map_eq_some_iff.mp move
    obtain ⟨packets, hsent, hprepared⟩ := leaderEvent_issues ht
    have hnew : (∃ packet ∈ packets, prep ∈ packet.prepared) ↔
        prep ∈ r.state.issues cfg event := by
      rw [← List.mem_flatMap, hprepared, List.mem_append]
      exact or_iff_left_of_imp fun again => repeats_subset cfg r.state event again
    simp only [hsent, List.mem_append, List.mem_reverse, or_and_right, exists_or, h, hnew]
    exact or_comm
  · obtain ⟨packets, hsent, hprepared⟩ := leaderInit_issues cfg propId
    have hstart : (issuingInit cfg propId).state.sent = packets.reverse := hsent
    simp only [hstart, List.mem_reverse, ← hprepared, List.mem_flatMap]

end Sent

/-! ### The records are ahead of what was issued -/

/-- Every ballot issued is the leader's, and its record has not gone back behind it. -/
structure Tracked (cfg : Config) (propId : Int) (s : LeaderState) (issued : List PrepareMsg) :
    Prop where
  rise : BallotsRise cfg propId issued
  id_eq : s.proposerId = propId
  records : ∀ k, (s.proposerArray k).status ≠ .p1New →
    (s.proposerArray k).ballot ≤ 2147483647 ∧ cfg.minBallot ≤ (s.proposerArray k).ballot ∧
      (s.proposerArray k).ballot % cfg.maxProposers = propId
  fresh : ∀ k, (s.proposerArray k).status = .p1New → (s.proposerArray k).iid = 0
  ahead : ∀ p ∈ issued, (s.slot cfg p.iid).status ≠ .p1New ∧
    (p.iid < (s.slot cfg p.iid).iid ∨
      p.iid = (s.slot cfg p.iid).iid ∧ p.ballot ≤ (s.slot cfg p.iid).ballot)

section Tracked

variable {cfg : Config} {propId : Int} {s t : LeaderState} {issued : List PrepareMsg}

theorem Tracked.congr (h : Tracked cfg propId s issued)
    (arr : t.proposerArray = s.proposerArray) (id : t.proposerId = s.proposerId) :
    Tracked cfg propId t issued := by
  refine ⟨h.rise, id.trans h.id_eq, ?_, ?_, ?_⟩
  · rw [arr]
    exact h.records
  · rw [arr]
    exact h.fresh
  · intro p hp
    rw [LeaderState.slot, arr]
    exact h.ahead p hp

/-- A record that only changes its promises and moves on in phase 1. -/
theorem Tracked.setSlot (h : Tracked cfg propId s issued) (i : Int) {r : ProposerRecord}
    (iid : r.iid = (s.slot cfg i).iid) (ballot : r.ballot = (s.slot cfg i).ballot)
    (used : r.status ≠ .p1New ↔ (s.slot cfg i).status ≠ .p1New) :
    Tracked cfg propId (s.setSlot cfg i r) issued := by
  refine ⟨h.rise, h.id_eq, ?_, ?_, ?_⟩
  · intro k
    rw [proposerArray_setSlot]
    split
    · next hk =>
        subst hk
        rw [used, ballot]
        exact h.records _
    · exact h.records k
  · intro k
    rw [proposerArray_setSlot]
    split
    · rw [iid]
      exact fun hr => h.fresh _ (not_not.mp fun hs => used.mpr hs hr)
    · exact h.fresh k
  · intro p hp
    have hahead := h.ahead p hp
    by_cases hindex : cfg.proposerArraySize.index p.iid = cfg.proposerArraySize.index i
    · rw [slot_congr cfg _ i hindex, slot_setSlot, used, iid, ballot, ← slot_congr cfg s i hindex]
      exact hahead
    · rw [slot_setSlot_of_ne cfg s i r hindex]
      exact hahead

/-- A record is prepared anew: for a free slot, a later instance or a higher ballot. -/
theorem Tracked.issue (h : Tracked cfg propId s issued) {i : Int} {r : ProposerRecord}
    (free : (s.slot cfg i).status = .p1New ∨ (s.slot cfg i).iid < i ∨
      ((s.slot cfg i).iid = i ∧ (s.slot cfg i).ballot < r.ballot))
    (iid : r.iid = i) (used : r.status ≠ .p1New) (high : r.ballot ≤ 2147483647)
    (low : cfg.minBallot ≤ r.ballot) (owner : r.ballot % cfg.maxProposers = propId) :
    Tracked cfg propId (s.setSlot cfg i r) (issued ++ [{ iid := i, ballot := r.ballot }]) := by
  have hsame : ∀ p ∈ issued,
      cfg.proposerArraySize.index p.iid = cfg.proposerArraySize.index i →
      p.iid < i ∨ p.iid = i ∧ p.ballot < r.ballot := by
    intro p hp hindex
    obtain ⟨hused, hahead⟩ := h.ahead p hp
    rw [slot_congr cfg s i hindex] at hused hahead
    cases free with
    | inl hnew => exact absurd hnew hused
    | inr hbehind => omega
  refine ⟨⟨?_, ?_, ?_⟩, h.id_eq, ?_, ?_, ?_⟩
  · refine List.pairwise_append.mpr ⟨h.rise.increasing, List.pairwise_singleton _ _, ?_⟩
    intro p hp q hq heq
    obtain rfl := List.mem_singleton.mp hq
    have := hsame p hp (congrArg _ heq)
    dsimp only at heq ⊢
    omega
  · intro p hp
    cases List.mem_append.mp hp with
    | inl hold => exact h.rise.low p hold
    | inr hnew =>
        rw [List.mem_singleton.mp hnew]
        exact low
  · intro p hp
    cases List.mem_append.mp hp with
    | inl hold => exact h.rise.owner p hold
    | inr hnew =>
        rw [List.mem_singleton.mp hnew]
        exact owner
  · intro k
    rw [proposerArray_setSlot]
    split
    · exact fun _ => ⟨high, low, owner⟩
    · exact h.records k
  · intro k
    rw [proposerArray_setSlot]
    split
    · exact fun hr => absurd hr used
    · exact h.fresh k
  · intro p hp
    by_cases hindex : cfg.proposerArraySize.index p.iid = cfg.proposerArraySize.index i
    · rw [slot_congr cfg _ i hindex, slot_setSlot, iid]
      refine ⟨used, ?_⟩
      cases List.mem_append.mp hp with
      | inl hold =>
          have := hsame p hold hindex
          omega
      | inr hnew =>
          rw [List.mem_singleton.mp hnew]
          exact .inr ⟨rfl, Int.le_refl _⟩
    · rw [slot_setSlot_of_ne cfg s i r hindex]
      cases List.mem_append.mp hp with
      | inl hold => exact h.ahead p hold
      | inr hnew =>
          rw [List.mem_singleton.mp hnew] at hindex
          exact absurd rfl hindex

/-- The next ballot of a record in use, when it does not run over. -/
theorem Tracked.next (h : Tracked cfg propId s issued) {k : Nat}
    (used : (s.proposerArray k).status ≠ .p1New)
    (fits : (s.proposerArray k).ballot + cfg.maxProposers ≤ 2147483647) :
    (s.proposerArray k).ballot < cfg.ballotNext (s.proposerArray k).ballot ∧
      cfg.ballotNext (s.proposerArray k).ballot ≤ 2147483647 ∧
      cfg.minBallot ≤ cfg.ballotNext (s.proposerArray k).ballot ∧
      cfg.ballotNext (s.proposerArray k).ballot % cfg.maxProposers = propId := by
  obtain ⟨-, hlow, howner⟩ := h.records k used
  have hpos := cfg.maxProposers_pos
  have hmin := minBallot_pos cfg
  rw [cfg.ballotNext_of_fits (by omega) fits]
  refine ⟨by omega, fits, by omega, ?_⟩
  rw [Int.add_emod_right]
  exact howner

theorem Tracked.retryInstance (h : Tracked cfg propId s issued) {i : Int}
    (fits : (s.slot cfg i).iid = i → (s.slot cfg i).status = .p1Pending →
      (s.slot cfg i).ballot + cfg.maxProposers ≤ 2147483647) :
    Tracked cfg propId (retryInstance cfg s i) (issued ++ (s.retryEntry cfg i).toList) := by
  simp only [LibFastPaxos.retryInstance, LeaderState.retryEntry]
  split
  · next hpending =>
      obtain ⟨hlt, hhigh, hlow, howner⟩ := h.next (k := cfg.proposerArraySize.index i)
        (by rw [← LeaderState.slot, hpending.2]; decide) (fits hpending.1 hpending.2)
      have hissue := h.issue (r := ProposerRecord.clearPromises
        { s.slot cfg i with ballot := cfg.ballotNext (s.slot cfg i).ballot })
        (.inr (.inr ⟨hpending.1, hlt⟩)) hpending.1
        (by simp [ProposerRecord.clearPromises, hpending.2]) hhigh hlow howner
      exact hissue.congr (addPrepareToBuffer_proposerArray _ _) (addPrepareToBuffer_proposerId _ _)
  · rw [Option.toList_none, List.append_nil]
    exact h

/-- The loop of `phase1_check_cb` retries no record twice, since the ids differ. -/
theorem Tracked.retries {ids : List Int} (h : Tracked cfg propId s issued)
    (distinct : ids.Nodup)
    (fits : ∀ i ∈ ids, (s.slot cfg i).iid = i → (s.slot cfg i).status = .p1Pending →
      (s.slot cfg i).ballot + cfg.maxProposers ≤ 2147483647) :
    Tracked cfg propId (ids.foldl (LibFastPaxos.retryInstance cfg) s)
      (issued ++ ids.filterMap (s.retryEntry cfg)) := by
  refine foldl_entries (· ≠ ·) _ (Tracked cfg propId)
    (fun t _ _ ne => retryInstance_entries cfg t ne.symm) ?_
    (fun t out i inv ok => Tracked.retryInstance inv ok) distinct h fits
  intro t i j ne ok own pending
  obtain ⟨hiid, hsame⟩ := retryInstance_slot cfg t i (cfg.proposerArraySize.index j)
  have hother : (t.slot cfg j).iid ≠ i := by
    intro heq
    exact ne (heq.symm.trans (hiid.symm.trans own))
  rw [LeaderState.slot, hsame hother] at own pending ⊢
  exact ok own pending

theorem Tracked.openInstance (h : Tracked cfg propId s issued) (id : 0 ≤ propId)
    (small : propId < cfg.maxProposers) (i : Int) :
    Tracked cfg propId (openInstance cfg s i) (issued ++ (s.openEntry cfg i).toList) := by
  simp only [LibFastPaxos.openInstance, LeaderState.openEntry]
  split
  · next hfree =>
      have hcounted : Tracked cfg propId
          { s with p1info := { s.p1info with pendingCount := s.p1info.pendingCount + 1 } } issued :=
        h.congr rfl rfl
      have hlow : cfg.minBallot ≤ cfg.firstBallot s.proposerId := by
        simp only [Config.minBallot, Config.firstBallot, h.id_eq]
        omega
      have hhigh : cfg.firstBallot s.proposerId ≤ 2147483647 := by
        have := cfg.maxProposers_fits
        simp only [Config.firstBallot, h.id_eq]
        omega
      have howner : cfg.firstBallot s.proposerId % cfg.maxProposers = propId := by
        rw [Config.firstBallot, h.id_eq, Int.add_comm, Int.add_mul_emod_self_right]
        exact Int.emod_eq_of_lt id small
      have hbehind : (s.slot cfg i).status = .p1New ∨ (s.slot cfg i).iid < i ∨
          ((s.slot cfg i).iid = i ∧
            (s.slot cfg i).ballot < cfg.firstBallot s.proposerId) := by
        cases hfree with
        | inl hlt => exact .inr (.inl hlt)
        | inr hnew => exact .inl hnew
      have hissue := hcounted.issue (r := (s.slot cfg i).opened cfg s.proposerId i) hbehind rfl
        (fun hnew => by cases hnew) hhigh hlow howner
      exact hissue.congr (addPrepareToBuffer_proposerArray _ _) (addPrepareToBuffer_proposerId _ _)
  · rw [Option.toList_none, List.append_nil]
    exact h

theorem Tracked.opens {ids : List Int} (h : Tracked cfg propId s issued) (id : 0 ≤ propId)
    (small : propId < cfg.maxProposers) (ascending : ids.Pairwise (· < ·)) :
    Tracked cfg propId (ids.foldl (LibFastPaxos.openInstance cfg) s)
      (issued ++ ids.filterMap (s.openEntry cfg)) :=
  foldl_entries (· < ·) (fun _ _ => True) (Tracked cfg propId)
    (fun t _ _ lt => openInstance_entries cfg t lt) (fun _ _ _ _ _ => trivial)
    (fun _ _ i inv _ => Tracked.openInstance inv id small i) ascending h fun _ _ => trivial

theorem Tracked.executePhase1 (h : Tracked cfg propId s issued) (id : 0 ≤ propId)
    (small : propId < cfg.maxProposers) :
    Tracked cfg propId (executePhase1 cfg s) (issued ++ s.openEntries cfg) := by
  obtain ⟨sent, heq⟩ := executePhase1_eq cfg s
  rw [heq]
  have hloop := h.opens id small (idsFromTo_ascending (s.p1info.highestReady + 1)
    (s.p1info.highestReady + 1 + cfg.proposerPreexecWinSize))
  exact hloop.congr rfl rfl

theorem Tracked.phase1CheckCb (h : Tracked cfg propId s issued) (id : 0 ≤ propId)
    (small : propId < cfg.maxProposers)
    (fits : ∀ i, (s.slot cfg i).iid = i → (s.slot cfg i).status = .p1Pending →
      (s.slot cfg i).ballot + cfg.maxProposers ≤ 2147483647) :
    Tracked cfg propId (phase1CheckCb cfg s) (issued ++ s.checkEntries cfg) := by
  have hinit : Tracked cfg propId s.initPrepares issued := h.congr rfl rfl
  have hretry : Tracked cfg propId (retryPending cfg s) (issued ++ s.retryEntries cfg) :=
    hinit.retries (nodup_of_ascending (idsFromTo_ascending _ _)) fun i _ => fits i
  have hlow := windowLow_retryPending cfg s
  obtain ⟨sent, hcase⟩ := phase1CheckCb_eq cfg s
  simp only [LeaderState.checkEntries]
  cases hcase with
  | inl hquiet =>
      rw [hquiet.1, if_neg (fun low => hquiet.2 (hlow.mpr low)), List.append_nil]
      exact hretry.congr rfl rfl
  | inr hopens =>
      have hopen := hretry.executePhase1 id small
      rw [openEntries_retryPending, List.append_assoc] at hopen
      rw [hopens.1, if_pos (hlow.mp hopens.2)]
      exact hopen.congr rfl rfl

theorem Tracked.phase2CheckCb (h : Tracked cfg propId s issued)
    (used : (s.slot cfg s.currentIid).iid = s.currentIid →
      (s.slot cfg s.currentIid).status ≠ .p1New)
    (fits : s.currentIid = s.p2CurrentIid →
      (s.slot cfg s.currentIid).ballot + cfg.maxProposers ≤ 2147483647)
    (run : phase2CheckCb cfg s = some t) :
    Tracked cfg propId t (issued ++ s.issues cfg .phase2Timer) := by
  simp only [LeaderState.issues]
  cases phase2CheckCb_check cfg s run with
  | progress moved =>
      rw [if_neg moved, List.append_nil]
      exact h.congr rfl rfl
  | restarted stuck own msgSize prepares sent =>
      obtain ⟨hlt, hhigh, hlow, howner⟩ := h.next (used own) (fits stuck)
      have hused : ((s.slot cfg s.currentIid).restarted cfg).status ≠ .p1New := by
        change (if (s.slot cfg s.currentIid).status = .p1Finished then StatusFlag.p1Pending
          else (s.slot cfg s.currentIid).status) ≠ .p1New
        split
        · decide
        · exact used own
      rw [if_pos stuck]
      exact (h.issue (r := (s.slot cfg s.currentIid).restarted cfg) (.inr (.inr ⟨own, hlt⟩)) own
        hused hhigh hlow howner).congr rfl rfl

theorem Tracked.handlePromise (h : Tracked cfg propId s issued) (prom : PromiseMsg)
    (acceptorId : Int) : Tracked cfg propId (handlePromise cfg s prom acceptorId).1 issued := by
  have outcome := handlePromise_outcome cfg s prom acceptorId
  generalize LibFastPaxos.handlePromise cfg s prom acceptorId = res at outcome ⊢
  cases outcome with
  | ignored _ => exact h
  | stored _ _ => exact h.setSlot prom.iid rfl rfl Iff.rfl
  | reached awaited _ p1info =>
      have hset := h.setSlot (r := { (s.slot cfg prom.iid).store prom acceptorId with
        status := .p1Ready }) prom.iid rfl rfl (by simp [awaited.pending])
      exact hset.congr rfl rfl

theorem Tracked.phase2Instance (h : Tracked cfg propId s issued) (i : Int) :
    Tracked cfg propId (phase2Instance cfg s i) issued := by
  unfold LibFastPaxos.phase2Instance
  dsimp only
  split
  · exact h
  · next ready =>
      have ready : (s.slot cfg i).status = .p1Ready := Decidable.not_not.mp ready
      have hset := h.setSlot (r := { s.slot cfg i with status := .p1Finished }) i rfl rfl
        (by simp [ready])
      split
      · simp only [appendAnymsgToBuffer]
        split <;> split <;> exact hset.congr rfl rfl
      · exact hset.congr rfl rfl

theorem Tracked.leaderHandlePromiseMsg (h : Tracked cfg propId s issued)
    (batch : PromiseBatchMsg) :
    Tracked cfg propId (leaderHandlePromiseMsg cfg s batch) issued := by
  refine leaderHandlePromiseMsg_keeps (fun u => Tracked cfg propId u issued) ?_ ?_ ?_ ?_ h
  · exact fun u p _ hu => hu.handlePromise p batch.acceptorId
  · exact fun u i hu => hu.phase2Instance i
  · exact fun u hu => hu.congr rfl rfl
  · exact fun u hu => hu.congr rfl rfl

end Tracked

/-! ### Runs -/

/-- What the leader keeps true while its ballots rise. -/
structure IssuesSoundly (cfg : Config) (propId : Int) (r : IssuingLeader) : Prop where
  checked : RecordsChecked cfg r.state
  tracked : Tracked cfg propId r.state r.issued
  opened : ∃ p ∈ r.issued, p.iid = 0

section Runs

variable {cfg : Config} {propId : Int} {r t : IssuingLeader}

/-- The first instance was opened by `leader_init`, and no other slot holds it unused. -/
theorem IssuesSoundly.used (h : IssuesSoundly cfg propId r) {i : Int}
    (own : (r.state.slot cfg i).iid = i) : (r.state.slot cfg i).status ≠ .p1New := by
  intro hnew
  obtain ⟨p, hp, hzero⟩ := h.opened
  have hi : i = 0 := own.symm.trans (h.tracked.fresh _ hnew)
  subst hi
  exact (h.tracked.ahead p hp).1 (hzero ▸ hnew)

theorem IssuesSoundly.event (h : IssuesSoundly cfg propId r) (id : 0 ≤ propId)
    (small : propId < cfg.maxProposers) {event : LeaderEvent}
    (run : issuingEvent cfg r event = some t) (fits : RaisesFit cfg r event) :
    IssuesSoundly cfg propId t := by
  obtain ⟨s, hs, rfl⟩ := Option.map_eq_some_iff.mp run
  obtain ⟨p, hp, hzero⟩ := h.opened
  refine ⟨?_, ?_, p, List.mem_append_left _ hp, hzero⟩
  · cases event with
    | promises batch =>
        obtain rfl := Option.some.inj hs
        exact h.checked.leaderHandlePromiseMsg batch
    | phase1Timer =>
        obtain rfl := Option.some.inj hs
        exact h.checked.phase1CheckCb
    | phase2Timer => exact h.checked.phase2CheckCb hs
    | deliver iid =>
        obtain rfl := Option.some.inj hs
        exact ⟨h.checked.placed.congr rfl, h.checked.first, h.checked.ready, h.checked.id_nonneg⟩
  · cases event with
    | promises batch =>
        obtain rfl := Option.some.inj hs
        simp only [LeaderState.issues, List.append_nil]
        exact h.tracked.leaderHandlePromiseMsg batch
    | phase1Timer =>
        obtain rfl := Option.some.inj hs
        refine h.tracked.phase1CheckCb id small ?_
        intro i own pending
        obtain ⟨-, hnonneg, -⟩ := h.checked.placed.used (cfg.proposerArraySize.index i)
          (by rw [← LeaderState.slot, pending]; decide)
        have hi : 0 ≤ i := own ▸ hnonneg
        exact fits _ (cfg.proposerArraySize.index_lt hi) pending
    | phase2Timer => exact h.tracked.phase2CheckCb h.used fits hs
    | deliver iid =>
        obtain rfl := Option.some.inj hs
        simp only [LeaderState.issues, List.append_nil]
        exact h.tracked.congr rfl rfl

/-- A ballot that runs over becomes negative. -/
theorem ballotNext_neg (cfg : Config) {ballot : Int} (low : cfg.minBallot ≤ ballot)
    (high : ballot ≤ 2147483647) (tooLarge : ¬ ballot + cfg.maxProposers ≤ 2147483647) :
    cfg.ballotNext ballot < cfg.minBallot := by
  have hpos := minBallot_pos cfg
  have hfits := cfg.maxProposers_fits
  have hmax := cfg.maxProposers_pos
  have hwrap : cfg.ballotNext ballot = ballot + cfg.maxProposers - 4294967296 := by
    simp only [Config.ballotNext, wrapInt32, Int.bmod]
    split <;> omega
  omega

theorem IssuesSoundly.fits_of_rise (h : IssuesSoundly cfg propId r) {event : LeaderEvent}
    (run : issuingEvent cfg r event = some t) (rise : BallotsRise cfg propId t.issued) :
    RaisesFit cfg r event := by
  obtain ⟨s, hs, rfl⟩ := Option.map_eq_some_iff.mp run
  have hissued : ∀ p ∈ r.state.issues cfg event, cfg.minBallot ≤ p.ballot :=
    fun p hp => rise.low p (List.mem_append_right _ hp)
  have hfits : ∀ k, (r.state.proposerArray k).status ≠ .p1New →
      cfg.minBallot ≤ cfg.ballotNext (r.state.proposerArray k).ballot →
      (r.state.proposerArray k).ballot + cfg.maxProposers ≤ 2147483647 := by
    intro k used low
    obtain ⟨hhigh, hlow, -⟩ := h.tracked.records k used
    by_contra tooLarge
    have := ballotNext_neg cfg hlow hhigh tooLarge
    omega
  cases event with
  | promises _ => trivial
  | phase1Timer =>
      intro k _ pending
      refine hfits k (by rw [pending]; decide) ?_
      exact hissued _ (mem_checkEntries.mpr (.inl ((mem_retryEntries h.checked).mpr
        ⟨k, pending, rfl⟩)))
  | phase2Timer =>
      intro stuck
      have own : (r.state.slot cfg r.state.currentIid).iid = r.state.currentIid := by
        by_contra other
        have hnone := (phase2CheckCb_eq_none cfg r.state).mpr ⟨stuck, other⟩
        rw [leaderEvent, hnone] at hs
        cases hs
      refine hfits _ (h.used own) ?_
      apply hissued
        { iid := r.state.currentIid
          ballot := cfg.ballotNext (r.state.slot cfg r.state.currentIid).ballot }
      rw [LeaderState.issues, if_pos stuck]
      exact List.mem_singleton.mpr rfl
  | deliver _ => trivial

theorem issuingInit_sound (id : 0 ≤ propId) (small : propId < cfg.maxProposers)
    (win : 0 ≤ cfg.proposerPreexecWinSize) :
    IssuesSoundly cfg propId (issuingInit cfg propId) := by
  have start : Reachable (leaderSystem cfg propId) anyStep (issuingInit cfg propId).state :=
    .init rfl
  refine ⟨leader_recordsChecked id start, ?_, ?_⟩
  · have hstart : Tracked cfg propId (leaderStarted propId) [] :=
      ⟨⟨.nil, nofun, nofun⟩, rfl, fun _ used => absurd rfl used, fun _ _ => rfl, nofun⟩
    exact hstart.executePhase1 id small
  · refine ⟨{ iid := 0, ballot := cfg.firstBallot propId }, ?_, rfl⟩
    refine List.mem_filterMap.mpr ⟨0, mem_idsFromTo.mpr ⟨Int.le_refl 0, ?_⟩, rfl⟩
    change 0 ≤ -1 + 1 + cfg.proposerPreexecWinSize
    omega

/-- The ballots issued per instance rise throughout a run, exactly when no ballot is raised
over the end of the `int`. -/
theorem ballots_rise_iff {cfg : Config} (win : 0 ≤ cfg.proposerPreexecWinSize) {propId : Int}
    (id : 0 ≤ propId) (small : propId < cfg.maxProposers) {events : List LeaderEvent}
    {final : IssuingLeader}
    (run : events.foldlM (issuingEvent cfg) (issuingInit cfg propId) = some final) :
    Throughout (issuingEvent cfg) (fun r => BallotsRise cfg propId r.issued)
        (issuingInit cfg propId) events ↔
      Meets (issuingEvent cfg) (RaisesFit cfg) (issuingInit cfg propId) events :=
  throughout_iff_meets (IssuesSoundly cfg propId) (fun _ h => h.tracked.rise)
    (fun _ _ _ h move fits => h.event id small move fits)
    (fun _ _ _ h move rise => h.fits_of_rise move rise)
    (issuingInit_sound id small win) run

variable (cfg) in
/-- Nothing is delivered, and the record of the current instance is restarted. -/
theorem phase2CheckCb_stuck {s : LeaderState} (stuck : s.currentIid = s.p2CurrentIid)
    (own : (s.slot cfg s.currentIid).iid = s.currentIid) :
    ∃ t, phase2CheckCb cfg s = some t ∧ t.currentIid = s.currentIid ∧
      t.p2CurrentIid = s.currentIid ∧
      t.slot cfg s.currentIid = (s.slot cfg s.currentIid).restarted cfg := by
  cases run : phase2CheckCb cfg s with
  | none => exact absurd own ((phase2CheckCb_eq_none cfg s).mp run).2
  | some t =>
      refine ⟨t, rfl, ?_⟩
      cases phase2CheckCb_check cfg s run with
      | progress moved => exact absurd stuck moved
      | restarted _ _ msgSize prepares sent => exact ⟨rfl, rfl, slot_setSlot cfg s _ _⟩

end Runs

theorem ballots_rise_retried :
    Throughout (issuingEvent .shipped) (fun r => BallotsRise .shipped 3 r.issued)
      (issuingInit .shipped 3) [.phase2Timer, .phase1Timer] := by
  have hrun : ∃ final, List.foldlM (issuingEvent .shipped) (issuingInit .shipped 3)
      [.phase2Timer, .phase1Timer] = some final :=
    Option.isSome_iff_exists.mp (by decide +kernel)
  obtain ⟨final, run⟩ := hrun
  exact (ballots_rise_iff (by decide) (by decide) (by decide) run).mpr (by decide +kernel)

/-- The first instance gathers no quorum, and one more timer restarts it. -/
theorem stuckLeader_restart {r : IssuingLeader} (current : r.state.currentIid = 0)
    (p2Current : r.state.p2CurrentIid = 0) (own : (r.state.slot .shipped 0).iid = 0) :
    ∃ t, issuingEvent .shipped r .phase2Timer = some t ∧ t.state.currentIid = 0 ∧
      t.state.p2CurrentIid = 0 ∧
      t.state.slot .shipped 0 = (r.state.slot .shipped 0).restarted .shipped ∧
      t.issued = r.issued ++
        [{ iid := 0, ballot := Config.shipped.ballotNext (r.state.slot .shipped 0).ballot }] := by
  have stuck := current.trans p2Current.symm
  obtain ⟨t, run, hcurrent, hp2, hslot⟩ := phase2CheckCb_stuck .shipped stuck
    (by rw [current]; exact own)
  rw [current] at hcurrent hp2 hslot
  refine ⟨{ state := t, issued := r.issued ++ r.state.issues .shipped .phase2Timer }, ?_,
    hcurrent, hp2, hslot, ?_⟩
  · simp [issuingEvent, leaderEvent, run]
  · rw [LeaderState.issues, if_pos stuck, current]

theorem stuckLeader_run (n : Nat) (fits : 20 + 10 * (n : Int) ≤ 2147483647) :
    ∃ r, (List.replicate n LeaderEvent.phase2Timer).foldlM (issuingEvent .shipped)
        (issuingInit .shipped 0) = some r ∧
      r.state.currentIid = 0 ∧ r.state.p2CurrentIid = 0 ∧
      (r.state.slot .shipped 0).iid = 0 ∧
      (r.state.slot .shipped 0).ballot = 20 + 10 * (n : Int) := by
  induction n with
  | zero =>
      refine ⟨issuingInit .shipped 0, rfl, ?_, ?_, ?_, ?_⟩
      · decide +kernel
      · decide +kernel
      · decide +kernel
      · decide +kernel
  | succ n ih =>
      obtain ⟨r, run, hcurrent, hp2, hiid, hballot⟩ := ih (by omega)
      obtain ⟨t, ht, hcurrent', hp2', hslot, -⟩ := stuckLeader_restart hcurrent hp2 hiid
      refine ⟨t, ?_, hcurrent', hp2', ?_, ?_⟩
      · rw [List.replicate_succ', List.foldlM_append, run]
        simp [ht]
      · rw [hslot]
        exact hiid
      · have hten : Config.shipped.maxProposers = 10 := rfl
        rw [hslot]
        change Config.shipped.ballotNext (r.state.slot .shipped 0).ballot = _
        rw [Config.ballotNext_of_fits _ (by omega) (by omega)]
        omega

theorem stuckLeader_next (n : Nat) (fits : 20 + 10 * (n : Int) ≤ 2147483647) :
    ∃ final, (List.replicate (n + 1) LeaderEvent.phase2Timer).foldlM (issuingEvent .shipped)
        (issuingInit .shipped 0) = some final ∧
      { iid := 0, ballot := Config.shipped.ballotNext (20 + 10 * (n : Int)) } ∈ final.issued := by
  obtain ⟨r, run, hcurrent, hp2, hiid, hballot⟩ := stuckLeader_run n fits
  obtain ⟨t, ht, -, -, -, hissued⟩ := stuckLeader_restart hcurrent hp2 hiid
  refine ⟨t, ?_, ?_⟩
  · rw [List.replicate_succ', List.foldlM_append, run]
    simp [ht]
  · rw [hissued, hballot]
    exact List.mem_append_right _ (List.mem_singleton.mpr rfl)

/-- The restart after 214748362 of them wraps to a negative ballot. -/
theorem stuckLeader_wraps :
    ∃ final, (List.replicate 214748363 LeaderEvent.phase2Timer).foldlM (issuingEvent .shipped)
        (issuingInit .shipped 0) = some final ∧
      ¬ BallotsRise .shipped 0 final.issued := by
  obtain ⟨final, run, hissued⟩ := stuckLeader_next 214748362 (by decide)
  have hcount : 214748362 + 1 = 214748363 := rfl
  rw [hcount] at run
  refine ⟨final, run, ?_⟩
  intro rise
  exact absurd (rise.low _ hissued) (by decide)

end LibFastPaxos
