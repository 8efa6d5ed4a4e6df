import LibFastPaxos.LeaderPhase2

/-!
The ballots of the leader. A record only moves to higher instances and, within
one instance, to higher ballots, and it is finished when its accept has gone
out. So one ballot of one instance names one accept, as long as no ballot runs
over the end of the 32-bit range, and what phase 2 sends rests on promises that
were heard for that very ballot.
-/

namespace LibFastPaxos

/-- The entry repeats the promise. -/
structure PromiseInfo.Repeats (info : PromiseInfo) (p : PromiseMsg) : Prop where
  valueBallot_eq : info.valueBallot = p.valueBallot
  value_eq : p.valueBallot ≠ -1 →
    info.valueSize = p.valueSize ∧ info.value = some (memcpy p.value p.valueSize)

/-- A record in use holds an instance of its slot, a ballot of a leader and promises
heard for that ballot. -/
structure ProposerRecord.Sound (cfg : Config) (heard : Nat → PromiseMsg → Prop) (k : Nat)
    (r : ProposerRecord) : Prop where
  iid_nonneg : 0 ≤ r.iid
  ballot_nonneg : 0 ≤ r.ballot
  in_place : r.status ≠ .p1New → cfg.proposerArraySize.index r.iid = k
  ballot_low : r.status ≠ .p1New → cfg.minBallot ≤ r.ballot
  promises : r.status ≠ .p1New → ∀ j, (r.promises j).iid ≠ -1 →
    ∃ p, heard j p ∧ p.iid = r.iid ∧ p.ballot = r.ballot ∧ (r.promises j).Repeats p

/-- The record has moved past the accept: to another instance, to a higher ballot, or
the accept is the one that finished it. -/
def ProposerRecord.Past (r : ProposerRecord) (m : AcceptMsg) : Prop :=
  r.status ≠ .p1New ∧ (m.iid < r.iid ∨ (m.iid = r.iid ∧
    (m.ballot < r.ballot ∨ (m.ballot = r.ballot ∧ r.status = .p1Finished))))

/-- An anyval message that may be flushed as soon as it has an entry. -/
structure AnyvalMsg.Filling (av : AnyvalMsg) : Prop where
  count_eq : av.count = av.ids.length
  ids_nonneg : ∀ i ∈ av.ids, 0 ≤ i
  ballot_nonneg : av.ids ≠ [] → 0 ≤ av.ballot

/-- What a leader keeps true; `justified` is what is known of every accept it sends. -/
structure LeaderSound (cfg : Config) (heard : Nat → PromiseMsg → Prop)
    (justified : AcceptMsg → Prop) (s : LeaderState) : Prop where
  id_nonneg : 0 ≤ s.proposerId
  id_lt : s.proposerId < cfg.maxProposers
  highestReady : -1 ≤ s.p1info.highestReady
  records : ∀ k, (s.proposerArray k).Sound cfg heard k
  prepares : s.prepares.WellFormed
  anymsg : s.anymsg.Filling
  packets : ∀ packet ∈ s.sent, packet.data.WellFormed
  ballot_low : ∀ m, Sends s.sent m → cfg.minBallot ≤ m.ballot
  past : ∀ m, Sends s.sent m → (s.slot cfg m.iid).Past m
  one_accept : ∀ m m', Sends s.sent m → Sends s.sent m' → m.iid = m'.iid →
    m.ballot = m'.ballot → m = m'
  justified : ∀ m, Sends s.sent m → justified m

/-- No ballot of the leader can run over at its next retry. -/
def LeaderFits (cfg : Config) (s : LeaderState) : Prop :=
  ∀ k, k < cfg.proposerArraySize.size →
    (s.proposerArray k).ballot + cfg.maxProposers ≤ 2147483647

section Preservation

variable {cfg : Config} {heard heard' : Nat → PromiseMsg → Prop}
  {justified justified' : AcceptMsg → Prop} {s t : LeaderState}

theorem ProposerRecord.Sound.mono {k : Nat} {r : ProposerRecord} (h : r.Sound cfg heard k)
    (hears : ∀ j p, heard j p → heard' j p) : r.Sound cfg heard' k := by
  refine ⟨h.iid_nonneg, h.ballot_nonneg, h.in_place, h.ballot_low, ?_⟩
  intro hstatus j hj
  obtain ⟨p, hp, rest⟩ := h.promises hstatus j hj
  exact ⟨p, hears j p hp, rest⟩

theorem LeaderSound.mono (h : LeaderSound cfg heard justified s)
    (hears : ∀ j p, heard j p → heard' j p)
    (justifies : ∀ m, Sends s.sent m → justified' m) : LeaderSound cfg heard' justified' s :=
  { h with
    records := fun k => (h.records k).mono hears
    justified := justifies }

/-- Timers, counters and the size of the buffer do not matter. -/
theorem LeaderSound.congr (h : LeaderSound cfg heard justified s)
    (id : t.proposerId = s.proposerId) (ready : -1 ≤ t.p1info.highestReady)
    (arr : t.proposerArray = s.proposerArray)
    (prepares : t.prepares.WellFormed) (anymsg : t.anymsg.Filling)
    (sent : t.sent = s.sent) : LeaderSound cfg heard justified t := by
  have hslot : ∀ i, t.slot cfg i = s.slot cfg i := by
    intro i
    simp only [LeaderState.slot, arr]
  refine ⟨?_, ?_, ready, ?_, prepares, anymsg, ?_, ?_, ?_, ?_, ?_⟩
  · rw [id]
    exact h.id_nonneg
  · rw [id]
    exact h.id_lt
  · rw [arr]
    exact h.records
  · rw [sent]
    exact h.packets
  · rw [sent]
    exact h.ballot_low
  · intro m
    rw [sent, hslot]
    exact h.past m
  · rw [sent]
    exact h.one_accept
  · rw [sent]
    exact h.justified

theorem LeaderSound.setP1info (h : LeaderSound cfg heard justified s) {info : Phase1Info}
    (ready : -1 ≤ info.highestReady) :
    LeaderSound cfg heard justified { s with p1info := info } :=
  h.congr rfl ready rfl h.prepares h.anymsg rfl

/-- A packet without an accept goes out. -/
theorem LeaderSound.send (h : LeaderSound cfg heard justified s) {packet : PaxosMsg}
    (wf : packet.data.WellFormed) (noAccept : ∀ m, packet.data ≠ .accept m) :
    LeaderSound cfg heard justified (s.send packet) := by
  have hsends : ∀ m, Sends (packet :: s.sent) m → Sends s.sent m := by
    intro m hm
    exact (sends_cons.mp hm).resolve_left (noAccept m)
  refine { h with packets := ?_, ballot_low := ?_, past := ?_, one_accept := ?_, justified := ?_ }
  · intro p hp
    cases List.mem_cons.mp hp with
    | inl heq =>
        subst heq
        exact wf
    | inr hold => exact h.packets p hold
  · exact fun m hm => h.ballot_low m (hsends m hm)
  · exact fun m hm => h.past m (hsends m hm)
  · exact fun m m' hm hm' => h.one_accept m m' (hsends m hm) (hsends m' hm')
  · exact fun m hm => h.justified m (hsends m hm)

/-- The first accept of its instance and ballot goes out. -/
theorem LeaderSound.sendAccept (h : LeaderSound cfg heard justified s) {m : AcceptMsg}
    (wf : m.WellFormed) (low : cfg.minBallot ≤ m.ballot) (past : (s.slot cfg m.iid).Past m)
    (fresh : ∀ m', Sends s.sent m' → m'.iid = m.iid → m'.ballot = m.ballot → False)
    (justifies : justified m) :
    LeaderSound cfg heard justified (s.send (acceptPacket m)) := by
  have hsends : ∀ m', Sends (s.send (acceptPacket m)).sent m' → m' = m ∨ Sends s.sent m' := by
    intro m' hm'
    refine (sends_cons.mp hm').imp_left fun heq => ?_
    cases heq
    rfl
  refine { h with packets := ?_, ballot_low := ?_, past := ?_, one_accept := ?_, justified := ?_ }
  · intro p hp
    cases List.mem_cons.mp hp with
    | inl heq =>
        subst heq
        exact wf
    | inr hold => exact h.packets p hold
  · intro m' hm'
    cases hsends m' hm' with
    | inl heq => exact heq ▸ low
    | inr hold => exact h.ballot_low m' hold
  · intro m' hm'
    cases hsends m' hm' with
    | inl heq =>
        subst heq
        exact past
    | inr hold => exact h.past m' hold
  · intro m₁ m₂ hm₁ hm₂ hiid hballot
    cases hsends m₁ hm₁ with
    | inl heq₁ =>
        subst heq₁
        cases hsends m₂ hm₂ with
        | inl heq₂ => exact heq₂.symm
        | inr hold₂ => exact (fresh m₂ hold₂ hiid.symm hballot.symm).elim
    | inr hold₁ =>
        cases hsends m₂ hm₂ with
        | inl heq₂ =>
            subst heq₂
            exact (fresh m₁ hold₁ hiid hballot).elim
        | inr hold₂ => exact h.one_accept m₁ m₂ hold₁ hold₂ hiid hballot
  · intro m' hm'
    cases hsends m' hm' with
    | inl heq => exact heq ▸ justifies
    | inr hold => exact h.justified m' hold

/-- A record is replaced by one that is past all that the old one was past. -/
theorem LeaderSound.setSlot (h : LeaderSound cfg heard justified s) {iid : Int}
    {r : ProposerRecord} (sound : r.Sound cfg heard (cfg.proposerArraySize.index iid))
    (past : ∀ m, (s.slot cfg iid).Past m → r.Past m) :
    LeaderSound cfg heard justified (s.setSlot cfg iid r) := by
  refine { h with records := ?_, past := ?_ }
  · intro k
    rw [proposerArray_setSlot]
    split
    · next hk =>
        subst hk
        exact sound
    · exact h.records k
  · intro m hm
    have hold := h.past m hm
    by_cases hi : cfg.proposerArraySize.index m.iid = cfg.proposerArraySize.index iid
    · rw [slot_congr cfg _ iid hi, slot_setSlot]
      rw [slot_congr cfg s iid hi] at hold
      exact past m hold
    · rw [slot_setSlot_of_ne cfg s iid r hi]
      exact hold

theorem LeaderSound.initPrepares (h : LeaderSound cfg heard justified s) :
    LeaderSound cfg heard justified s.initPrepares :=
  h.congr rfl h.highestReady rfl ⟨rfl, fun p hp => by cases hp⟩ h.anymsg rfl

theorem LeaderSound.flushPrepares (h : LeaderSound cfg heard justified s) :
    LeaderSound cfg heard justified s.flushPrepares :=
  h.send h.prepares (fun _ hm => by cases hm)

theorem LeaderSound.addPrepareToBuffer (h : LeaderSound cfg heard justified s) {iid ballot : Int}
    (iid_nonneg : 0 ≤ iid) (ballot_nonneg : 0 ≤ ballot) :
    LeaderSound cfg heard justified (addPrepareToBuffer s iid ballot) := by
  have hbuffer : LeaderSound cfg heard justified
      { s with
        prepares :=
          { count := s.prepares.count + 1, data := s.prepares.data ++ [⟨iid, ballot⟩] }
        msgSize := s.msgSize + sizeofPrepareMsg } := by
    refine h.congr rfl h.highestReady rfl ⟨?_, ?_⟩ h.anymsg rfl
    · simp [h.prepares.count_eq]
    · intro p hp
      cases List.mem_append.mp hp with
      | inl hold => exact h.prepares.entries p hold
      | inr hnew =>
          obtain rfl := List.mem_singleton.mp hnew
          exact ⟨iid_nonneg, ballot_nonneg⟩
  simp only [LibFastPaxos.addPrepareToBuffer]
  split
  · exact hbuffer.flushPrepares.initPrepares
  · exact hbuffer

/-! ### Phase 1 -/

theorem LeaderSound.firstBallot (h : LeaderSound cfg heard justified s) :
    cfg.minBallot ≤ cfg.firstBallot s.proposerId := by
  have := h.id_nonneg
  simp only [Config.minBallot, Config.firstBallot]
  omega

theorem minBallot_pos (cfg : Config) : 0 < cfg.minBallot := by
  have := cfg.maxProposers_pos
  simp only [Config.minBallot]
  omega

theorem LeaderSound.openInstance (h : LeaderSound cfg heard justified s) {i : Int}
    (nonneg : 0 ≤ i) : LeaderSound cfg heard justified (openInstance cfg s i) := by
  have hlow := h.firstBallot
  have hpos := minBallot_pos cfg
  simp only [LibFastPaxos.openInstance]
  split
  · next hopen =>
      apply LeaderSound.addPrepareToBuffer
      · apply LeaderSound.setSlot
        · exact h.congr rfl h.highestReady rfl h.prepares h.anymsg rfl
        · refine ⟨nonneg, ?_, fun _ => rfl, fun _ => hlow, ?_⟩
          · simp only [ProposerRecord.clearPromises]
            omega
          · intro _ j hj
            exact absurd rfl hj
        · intro m hm
          obtain ⟨hnew, hpast⟩ : (s.slot cfg i).Past m := hm
          have hlt : (s.slot cfg i).iid < i := hopen.resolve_right hnew
          refine ⟨by simp [ProposerRecord.clearPromises], .inl ?_⟩
          simp only [ProposerRecord.clearPromises]
          omega
      · exact nonneg
      · simp only [ProposerRecord.clearPromises]
        omega
  · exact h

theorem LeaderSound.executePhase1 (h : LeaderSound cfg heard justified s) :
    LeaderSound cfg heard justified (executePhase1 cfg s) := by
  have hready := h.highestReady
  have hloop : LeaderSound cfg heard justified
      ((idsFromTo (s.p1info.highestReady + 1)
        (s.p1info.highestReady + 1 + cfg.proposerPreexecWinSize)).foldl
          (LibFastPaxos.openInstance cfg) s) := by
    have hids : ∀ i ∈ idsFromTo (s.p1info.highestReady + 1)
        (s.p1info.highestReady + 1 + cfg.proposerPreexecWinSize), 0 ≤ i := by
      intro i hi
      have := (mem_idsFromTo.mp hi).1
      omega
    generalize idsFromTo (s.p1info.highestReady + 1)
      (s.p1info.highestReady + 1 + cfg.proposerPreexecWinSize) = ids at hids ⊢
    clear hready
    induction ids generalizing s with
    | nil => exact h
    | cons i ids ih =>
        exact ih (h.openInstance (hids i List.mem_cons_self))
          (fun j hj => hids j (List.mem_cons_of_mem i hj))
  unfold LibFastPaxos.executePhase1
  extract_lets start stop s₁ last s₂ first s₃
  have hlast : LeaderSound cfg heard justified s₂ := by
    unfold s₂
    split
    · exact hloop.setP1info hloop.highestReady
    · exact hloop
  have hfirst : LeaderSound cfg heard justified s₃ := by
    unfold s₃
    split
    · exact hlast.setP1info hlast.highestReady
    · exact hlast
  split
  · exact hfirst.flushPrepares
  · exact hfirst

/-- The next ballot of a record, when it does not run over. -/
theorem ProposerRecord.Sound.retried {k : Nat} {r : ProposerRecord} (h : r.Sound cfg heard k)
    (fits : r.ballot + cfg.maxProposers ≤ 2147483647) (status : StatusFlag)
    (keeps : status = .p1New ↔ r.status = .p1New) :
    (ProposerRecord.clearPromises
      { r with status := status, ballot := cfg.ballotNext r.ballot }).Sound cfg heard k ∧
    (∀ m, r.Past m → (ProposerRecord.clearPromises
      { r with status := status, ballot := cfg.ballotNext r.ballot }).Past m) ∧
    0 ≤ cfg.ballotNext r.ballot := by
  have hnext := cfg.ballotNext_of_fits h.ballot_nonneg fits
  have hpos := cfg.maxProposers_pos
  have hnonneg := h.ballot_nonneg
  simp only [ProposerRecord.clearPromises, hnext]
  refine ⟨⟨h.iid_nonneg, ?_, ?_, ?_, ?_⟩, ?_, ?_⟩
  · dsimp only
    omega
  · intro hstatus
    exact h.in_place fun hnew => hstatus (keeps.mpr hnew)
  · intro hstatus
    have := h.ballot_low fun hnew => hstatus (keeps.mpr hnew)
    dsimp only
    omega
  · intro _ j hj
    exact absurd rfl hj
  · rintro m ⟨hnew, hpast⟩
    refine ⟨fun hstatus => hnew (keeps.mp hstatus), ?_⟩
    dsimp only
    omega
  · omega

theorem LeaderSound.retryInstance (h : LeaderSound cfg heard justified s) {i : Int}
    (fits : (s.slot cfg i).iid = i → (s.slot cfg i).ballot + cfg.maxProposers ≤ 2147483647) :
    LeaderSound cfg heard justified (retryInstance cfg s i) := by
  simp only [LibFastPaxos.retryInstance]
  split
  · next hpending =>
      obtain ⟨hsound, hpast, hballot⟩ :=
        (h.records (cfg.proposerArraySize.index i)).retried (fits hpending.1)
          (s.slot cfg i).status Iff.rfl
      exact (h.setSlot hsound hpast).addPrepareToBuffer
        (h.records (cfg.proposerArraySize.index i)).iid_nonneg hballot
  · exact h

/-- A retry touches the record of its instance only. -/
theorem retryInstance_slot (cfg : Config) (s : LeaderState) (i : Int) (k : Nat) :
    ((retryInstance cfg s i).proposerArray k).iid = (s.proposerArray k).iid ∧
      ((s.proposerArray k).iid ≠ i →
        (retryInstance cfg s i).proposerArray k = s.proposerArray k) := by
  simp only [retryInstance]
  split
  · next hpending =>
      rw [addPrepareToBuffer_proposerArray, proposerArray_setSlot]
      split
      · next hk =>
          subst hk
          exact ⟨rfl, fun hne => absurd hpending.1 hne⟩
      · exact ⟨rfl, fun _ => rfl⟩
  · exact ⟨rfl, fun _ => rfl⟩

/-- The loop retries no record twice, since the ids differ. -/
theorem LeaderSound.retries (h : LeaderSound cfg heard justified s) {ids : List Int}
    (distinct : ids.Nodup)
    (fits : ∀ k, k < cfg.proposerArraySize.size → (s.proposerArray k).iid ∈ ids →
      (s.proposerArray k).ballot + cfg.maxProposers ≤ 2147483647) :
    LeaderSound cfg heard justified (ids.foldl (LibFastPaxos.retryInstance cfg) s) := by
  induction ids generalizing s with
  | nil => exact h
  | cons i ids ih =>
      obtain ⟨hi, hids⟩ := List.nodup_cons.mp distinct
      apply ih
      · apply h.retryInstance
        intro heq
        have hnonneg := (h.records (cfg.proposerArraySize.index i)).iid_nonneg
        apply fits _ (cfg.proposerArraySize.index_lt (heq ▸ hnonneg))
        have hmem : (s.slot cfg i).iid ∈ i :: ids := by
          rw [heq]
          exact List.mem_cons_self
        exact hmem
      · exact hids
      · intro k hlt hk
        obtain ⟨hiid, hsame⟩ := retryInstance_slot cfg s i k
        rw [hiid] at hk
        rw [hsame fun heq => hi (heq ▸ hk)]
        exact fits k hlt (List.mem_cons_of_mem i hk)

theorem LeaderSound.phase1CheckCb (h : LeaderSound cfg heard justified s)
    (fits : LeaderFits cfg s) : LeaderSound cfg heard justified (phase1CheckCb cfg s) := by
  have hretries := h.initPrepares.retries
    (nodup_of_ascending (idsFromTo_ascending s.p1info.firstToCheck s.p1info.lastToCheck))
    (fun k hlt _ => fits k hlt)
  unfold LibFastPaxos.phase1CheckCb
  dsimp only
  split
  · split
    · exact hretries.executePhase1.flushPrepares
    · exact hretries.executePhase1
  · split
    · exact hretries.flushPrepares
    · exact hretries

theorem LeaderSound.phase2CheckCb (h : LeaderSound cfg heard justified s)
    (fits : LeaderFits cfg s) (run : phase2CheckCb cfg s = some t) :
    LeaderSound cfg heard justified t := by
  unfold LibFastPaxos.phase2CheckCb at run
  split at run
  · dsimp only at run
    split at run
    · cases run
    · next own =>
      cases run
      have hinit := h.initPrepares
      have hslot : s.initPrepares.slot cfg s.initPrepares.currentIid = s.slot cfg s.currentIid :=
        rfl
      rw [hslot]
      have hrecord := h.records (cfg.proposerArraySize.index s.currentIid)
      have hnonneg : 0 ≤ s.currentIid := (Decidable.not_not.mp own) ▸ hrecord.iid_nonneg
      obtain ⟨hsound, hpast, hballot⟩ := hrecord.retried
        (fits _ (cfg.proposerArraySize.index_lt hnonneg))
        (if (s.slot cfg s.currentIid).status = .p1Finished then .p1Pending
          else (s.slot cfg s.currentIid).status) (by
            change _ ↔ (s.slot cfg s.currentIid).status = .p1New
            split
            · next hfinished => simp [hfinished]
            · exact Iff.rfl)
      have hset := hinit.setSlot hsound hpast
      have hready : -1 ≤ (if (s.slot cfg s.currentIid).status = .p1Finished then
          { s.p1info with
            readyCount := s.p1info.readyCount - 1, pendingCount := s.p1info.pendingCount + 1 }
          else s.p1info).highestReady := by
        split <;> exact h.highestReady
      have hresult := ((hset.setP1info hready).addPrepareToBuffer
        hrecord.iid_nonneg hballot).flushPrepares
      exact hresult.congr rfl hresult.highestReady rfl hresult.prepares hresult.anymsg rfl
  · cases run
    exact h.congr rfl h.highestReady rfl h.prepares h.anymsg rfl

/-! ### Promises and phase 2 -/

theorem handlePromise_highestReady (cfg : Config) (s : LeaderState) (prom : PromiseMsg)
    (acceptorId : Int) :
    s.p1info.highestReady ≤ (handlePromise cfg s prom acceptorId).1.p1info.highestReady := by
  simp only [handlePromise]
  repeat' split
  all_goals first
    | exact Int.le_refl _
    | (dsimp only; omega)

theorem LeaderSound.handlePromise (h : LeaderSound cfg heard justified s) {prom : PromiseMsg}
    {acceptorId : Int} (hears : heard acceptorId.toNat prom) :
    LeaderSound cfg heard justified (handlePromise cfg s prom acceptorId).1 := by
  have hrecord := h.records (cfg.proposerArraySize.index prom.iid)
  have stores : (s.slot cfg prom.iid).Awaits prom acceptorId → ∀ status,
      status = StatusFlag.p1Pending ∨ status = .p1Ready →
      LeaderSound cfg heard justified (s.setSlot cfg prom.iid
        { (s.slot cfg prom.iid).store prom acceptorId with status := status }) := by
    intro awaited status hstatus
    have hused : (s.slot cfg prom.iid).status ≠ .p1New := by
      rw [awaited.pending]
      simp
    apply h.setSlot
    · refine ⟨hrecord.iid_nonneg, hrecord.ballot_nonneg, fun _ => hrecord.in_place hused,
        fun _ => hrecord.ballot_low hused, ?_⟩
      intro _ j hj
      by_cases hja : j = acceptorId.toNat
      · subst hja
        refine ⟨prom, hears, awaited.iid_eq.symm, awaited.ballot_eq.symm, ?_⟩
        simp only [ProposerRecord.store, Function.update_self]
        refine ⟨rfl, fun valued => ?_⟩
        simp [PromiseInfo.store, valued]
      · simp only [ProposerRecord.store, Function.update_of_ne hja] at hj ⊢
        exact hrecord.promises hused j hj
    · rintro m ⟨_, hpast⟩
      have hpending := awaited.pending
      have hnotFinished : (s.slot cfg prom.iid).status ≠ .p1Finished := by
        rw [hpending]
        simp
      refine ⟨?_, ?_⟩
      · cases hstatus with
        | inl heq => simp [heq]
        | inr heq => simp [heq]
      · simp only [ProposerRecord.store]
        simp only [hnotFinished, and_false, or_false] at hpast
        exact hpast.imp_right fun hsame => ⟨hsame.1, .inl hsame.2⟩
  have outcome := handlePromise_outcome cfg s prom acceptorId
  have hready := handlePromise_highestReady cfg s prom acceptorId
  have hlow := h.highestReady
  generalize LibFastPaxos.handlePromise cfg s prom acceptorId = res at outcome hready ⊢
  cases outcome with
  | ignored _ => exact h
  | stored awaited _ =>
      have hstored := stores awaited .p1Pending (.inl rfl)
      have hsame : { (s.slot cfg prom.iid).store prom acceptorId with status := .p1Pending } =
          (s.slot cfg prom.iid).store prom acceptorId := by
        rw [← awaited.pending]
        rfl
      rw [hsame] at hstored
      exact hstored
  | reached awaited _ p1info =>
      exact (stores awaited .p1Ready (.inr rfl)).setP1info (Int.le_trans hlow hready)

theorem LeaderSound.storePromises (h : LeaderSound cfg heard justified s)
    {batch : PromiseBatchMsg} (hears : ∀ p ∈ batch.data, heard batch.acceptorId.toNat p) :
    LeaderSound cfg heard justified (storePromises cfg s batch) := by
  simp only [LibFastPaxos.storePromises]
  have hmem : ∀ p ∈ batch.data.take batch.count.toNat, heard batch.acceptorId.toNat p :=
    fun p hp => hears p (List.mem_of_mem_take hp)
  generalize batch.data.take batch.count.toNat = proms at hmem ⊢
  induction proms generalizing s with
  | nil => exact h
  | cons prom proms ih =>
      exact ih (h.handlePromise (hmem prom List.mem_cons_self))
        (fun p hp => hmem p (List.mem_cons_of_mem prom hp))

theorem LeaderSound.initAnymsg (h : LeaderSound cfg heard justified s) :
    LeaderSound cfg heard justified s.initAnymsg :=
  h.congr rfl h.highestReady rfl h.prepares ⟨rfl, fun i hi => (by cases hi), fun hne =>
    absurd rfl hne⟩ rfl

theorem LeaderSound.flushAnymsg (h : LeaderSound cfg heard justified s)
    (nonempty : s.anymsg.ids ≠ []) : LeaderSound cfg heard justified s.flushAnymsg :=
  h.send ⟨h.anymsg.count_eq, h.anymsg.ballot_nonneg nonempty, h.anymsg.ids_nonneg⟩
    (fun _ hm => by cases hm)

theorem LeaderSound.bufferItem (h : LeaderSound cfg heard justified s) {i ballot : Int}
    (nonneg : 0 ≤ i) (ballot_nonneg : 0 ≤ ballot) :
    LeaderSound cfg heard justified (bufferItem s i ballot) := by
  have hbuffer : LeaderSound cfg heard justified
      { s with
        msgSize := s.msgSize + sizeofInt
        anymsg :=
          { ballot := if ballot > s.anymsg.ballot then ballot else s.anymsg.ballot
            count := s.anymsg.count + 1
            ids := s.anymsg.ids ++ [i] } } := by
    refine h.congr rfl h.highestReady rfl h.prepares ⟨?_, ?_, ?_⟩ rfl
    · simp [h.anymsg.count_eq]
    · intro j hj
      cases List.mem_append.mp hj with
      | inl hold => exact h.anymsg.ids_nonneg j hold
      | inr hnew =>
          obtain rfl := List.mem_singleton.mp hnew
          exact nonneg
    · intro _
      dsimp only
      split <;> omega
  have hmsg : (if ballot > s.anymsg.ballot then
        { s with anymsg := { s.anymsg with ballot := ballot } } else s) =
      { s with anymsg := { s.anymsg with
        ballot := if ballot > s.anymsg.ballot then ballot else s.anymsg.ballot } } := by
    split <;> rfl
  simp only [LibFastPaxos.bufferItem, appendAnymsgToBuffer]
  rw [hmsg]
  dsimp only
  split
  · exact (hbuffer.flushAnymsg (by simp)).initAnymsg
  · exact hbuffer

/-- The accept for the promise that `phase2_value` picked is well-formed. -/
theorem acceptOf_wellFormed (hears : ∀ j p, heard j p → p.valueBallot ≠ -1 →
      p.valueSize = p.value.length ∧ p.valueSize ≤ paxosMaxValueSize)
    {k : Nat} {r : ProposerRecord} (sound : r.Sound cfg heard k) (used : r.status ≠ .p1New)
    {pi : PromiseInfo} (value : phase2Value cfg r = some pi) :
    (acceptOf cfg r pi).WellFormed := by
  obtain ⟨⟨j, -, hj⟩, ⟨hiid, hvb⟩, -⟩ := phase2Value_spec value
  obtain ⟨p, hp, -, -, hrep⟩ := sound.promises used j (by rw [hj]; exact hiid)
  rw [hj] at hrep
  have hvalued : p.valueBallot ≠ -1 := by
    rw [← hrep.valueBallot_eq]
    omega
  obtain ⟨hsize, hle⟩ := hears j p hp hvalued
  obtain ⟨hpsize, hpvalue⟩ := hrep.value_eq hvalued
  have hvalue : memcpy p.value p.valueSize = p.value := memcpy_of_length hsize
  refine ⟨sound.iid_nonneg, sound.ballot_nonneg, ?_, ?_⟩
  · simp only [acceptOf, hpvalue, Option.getD_some, hvalue, hpsize]
    exact hsize
  · simp only [acceptOf, hpsize]
    exact hle

theorem LeaderSound.phase2Instance (h : LeaderSound cfg heard justified s)
    (hears : ∀ j p, heard j p → p.valueBallot ≠ -1 →
      p.valueSize = p.value.length ∧ p.valueSize ≤ paxosMaxValueSize)
    (justifies : ∀ k pi, (s.proposerArray k).status = .p1Ready →
      phase2Value cfg (s.proposerArray k) = some pi →
      justified (acceptOf cfg (s.proposerArray k) pi)) {i : Int} (nonneg : 0 ≤ i) :
    LeaderSound cfg heard justified (phase2Instance cfg s i) := by
  by_cases ready : (s.slot cfg i).status = .p1Ready
  · have hused : (s.slot cfg i).status ≠ .p1New := by
      rw [ready]
      simp
    have hrecord := h.records (cfg.proposerArraySize.index i)
    have hfinished : ProposerRecord.Sound cfg heard (cfg.proposerArraySize.index i)
        { s.slot cfg i with status := .p1Finished } :=
      ⟨hrecord.iid_nonneg, hrecord.ballot_nonneg, fun _ => hrecord.in_place hused,
        fun _ => hrecord.ballot_low hused, fun _ => hrecord.promises hused⟩
    have hpast : ∀ m, (s.slot cfg i).Past m →
        ProposerRecord.Past { s.slot cfg i with status := .p1Finished } m := by
      intro m ⟨_, hm⟩
      exact ⟨by simp, hm.imp_right fun hsame => ⟨hsame.1, hsame.2.imp_right fun heq =>
        ⟨heq.1, rfl⟩⟩⟩
    have hfinish : LeaderSound cfg heard justified (finish cfg s i) := h.setSlot hfinished hpast
    cases value : phase2Value cfg (s.slot cfg i) with
    | none =>
        rw [phase2Instance_of_no_value ready value]
        have hbuffer := h.bufferItem nonneg hrecord.ballot_nonneg
        apply hbuffer.setSlot hfinished
        intro m hm
        rw [LeaderState.slot, bufferItem_array] at hm
        exact hpast m hm
    | some pi =>
        rw [phase2Instance_of_value ready value]
        have hindex : cfg.proposerArraySize.index (s.slot cfg i).iid =
            cfg.proposerArraySize.index i := hrecord.in_place hused
        apply hfinish.sendAccept
        · exact acceptOf_wellFormed hears hrecord hused value
        · exact hrecord.ballot_low hused
        · have hslot : (finish cfg s i).slot cfg (s.slot cfg i).iid =
              { s.slot cfg i with status := .p1Finished } := by
            rw [slot_congr cfg _ i hindex, finish, slot_setSlot]
          change ((finish cfg s i).slot cfg (s.slot cfg i).iid).Past _
          rw [hslot]
          exact ⟨by simp, .inr ⟨rfl, .inr ⟨rfl, rfl⟩⟩⟩
        · intro m hm hiid hballot
          -- an earlier accept of this ballot would have finished the record
          obtain ⟨-, hpast⟩ := h.past m hm
          have hiid : m.iid = (s.slot cfg i).iid := hiid
          have hballot : m.ballot = (s.slot cfg i).ballot := hballot
          rw [hiid, slot_congr cfg s i hindex, ready, hballot] at hpast
          simp at hpast
        · exact justifies _ pi ready value
  · rw [phase2Instance_of_not_ready ready]
    exact h

/-- Phase 2 touches nothing of a ready record that it leaves ready. -/
theorem phase2Instance_ready (cfg : Config) (s : LeaderState) (i : Int) {k : Nat}
    (ready : ((phase2Instance cfg s i).proposerArray k).status = .p1Ready) :
    (phase2Instance cfg s i).proposerArray k = s.proposerArray k := by
  by_cases hready : (s.slot cfg i).status = .p1Ready
  · rw [phase2Instance_array hready, finish, proposerArray_setSlot] at ready ⊢
    split
    · next hk =>
        rw [if_pos hk] at ready
        cases ready
    · rfl
  · rw [phase2Instance_of_not_ready hready]

theorem LeaderSound.executePhase2 (h : LeaderSound cfg heard justified s)
    (hears : ∀ j p, heard j p → p.valueBallot ≠ -1 →
      p.valueSize = p.value.length ∧ p.valueSize ≤ paxosMaxValueSize)
    (justifies : ∀ k pi, (s.proposerArray k).status = .p1Ready →
      phase2Value cfg (s.proposerArray k) = some pi →
      justified (acceptOf cfg (s.proposerArray k) pi)) {first last : Int} (nonneg : 0 ≤ first) :
    LeaderSound cfg heard justified (executePhase2 cfg s first last) := by
  have hids : ∀ i ∈ idsFromTo first last, 0 ≤ i := by
    intro i hi
    have := (mem_idsFromTo.mp hi).1
    omega
  have hloop : LeaderSound cfg heard justified
      ((idsFromTo first last).foldl (LibFastPaxos.phase2Instance cfg) s.initAnymsg) := by
    have hinit := h.initAnymsg
    have hjust : ∀ k pi, (s.initAnymsg.proposerArray k).status = .p1Ready →
        phase2Value cfg (s.initAnymsg.proposerArray k) = some pi →
        justified (acceptOf cfg (s.initAnymsg.proposerArray k) pi) := justifies
    generalize s.initAnymsg = u at hinit hjust ⊢
    generalize idsFromTo first last = ids at hids ⊢
    induction ids generalizing u with
    | nil => exact hinit
    | cons i ids ih =>
        apply ih
        · exact hinit.phase2Instance hears hjust (hids i List.mem_cons_self)
        · intro k pi ready value
          have hsame := phase2Instance_ready cfg u i ready
          rw [hsame] at ready value ⊢
          exact hjust k pi ready value
        · intro j hj
          exact hids j (List.mem_cons_of_mem i hj)
  unfold LibFastPaxos.executePhase2
  dsimp only
  split
  · next hcount =>
      apply hloop.flushAnymsg
      intro hempty
      rw [hloop.anymsg.count_eq, hempty] at hcount
      simp at hcount
  · exact hloop

theorem LeaderSound.leaderHandlePromiseMsg (h : LeaderSound cfg heard justified s)
    {batch : PromiseBatchMsg}
    (hears : ∀ j p, heard j p → 0 ≤ p.iid ∧ (p.valueBallot ≠ -1 →
      p.valueSize = p.value.length ∧ p.valueSize ≤ paxosMaxValueSize))
    (count : batch.count = batch.data.length) (nonempty : batch.data ≠ [])
    (heardBatch : ∀ p ∈ batch.data, heard batch.acceptorId.toNat p)
    (justifies : ∀ k pi,
      ((LibFastPaxos.storePromises cfg s batch).proposerArray k).status = .p1Ready →
      phase2Value cfg ((LibFastPaxos.storePromises cfg s batch).proposerArray k) = some pi →
      justified (acceptOf cfg
        ((LibFastPaxos.storePromises cfg s batch).proposerArray k) pi)) :
    LeaderSound cfg heard justified (leaderHandlePromiseMsg cfg s batch) := by
  rw [leaderHandlePromiseMsg_eq]
  apply (h.storePromises heardBatch).executePhase2 (fun j p hp => (hears j p hp).2) justifies
  -- the first id of the window is that of the first promise
  obtain ⟨p, ps, hdata⟩ := List.exists_cons_of_ne_nil nonempty
  have hfirst : firstIid batch = p.iid := by
    simp [firstIid, count, hdata]
  rw [hfirst]
  exact (hears _ p (heardBatch p (by simp [hdata]))).1

theorem LeaderSound.leaderDeliverValue (h : LeaderSound cfg heard justified s) (iid : Int) :
    LeaderSound cfg heard justified (leaderDeliverValue s iid) :=
  h.congr rfl h.highestReady rfl h.prepares h.anymsg rfl

theorem leaderInit_sound {propId : Int} (nonneg : 0 ≤ propId) (lt : propId < cfg.maxProposers) :
    LeaderSound cfg heard justified (leaderInit cfg propId) := by
  apply LeaderSound.executePhase1
  refine ⟨nonneg, lt, Int.le_refl _, ?_, ⟨rfl, ?_⟩, ⟨rfl, ?_, ?_⟩, ?_, ?_, ?_, ?_, ?_⟩
  · intro k
    exact ⟨Int.le_refl _, Int.le_refl _, fun hne => absurd rfl hne, fun hne => absurd rfl hne,
      fun hne => absurd rfl hne⟩
  · intro p hp
    cases hp
  · intro i hi
    cases hi
  · exact fun hne => absurd rfl hne
  · intro packet hp
    cases hp
  · intro m ⟨packet, hp, _⟩
    cases hp
  · intro m ⟨packet, hp, _⟩
    cases hp
  · intro m m' ⟨packet, hp, _⟩
    cases hp
  · intro m ⟨packet, hp, _⟩
    cases hp

end Preservation
end LibFastPaxos
