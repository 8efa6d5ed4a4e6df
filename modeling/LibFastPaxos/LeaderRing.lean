import LibFastPaxos.LeaderWindow

/-!
The records of the ring in every run, whatever is delivered: a record in use belongs to
its slot, and the loop of `phase1_check_cb` comes by it.
-/

namespace LibFastPaxos

open Transition

/-- A record in use is the one of its slot and not beyond `last`; ballots are `int`s. -/
structure RecordsPlaced (cfg : Config) (s : LeaderState) (last : Int) : Prop where
  used : ∀ k, (s.proposerArray k).status ≠ .p1New →
    cfg.proposerArraySize.index (s.proposerArray k).iid = k ∧
      0 ≤ (s.proposerArray k).iid ∧ (s.proposerArray k).iid ≤ last
  ballot_int : ∀ k, -2147483648 ≤ (s.proposerArray k).ballot

/-- The loop of `phase1_check_cb` comes by every record in use. -/
structure RecordsChecked (cfg : Config) (s : LeaderState) : Prop where
  placed : RecordsPlaced cfg s s.p1info.lastToCheck
  first : s.p1info.firstToCheck ≤ 0
  ready : -1 ≤ s.p1info.highestReady
  id_nonneg : 0 ≤ s.proposerId

theorem ballotNext_int (cfg : Config) (ballot : Int) : -2147483648 ≤ cfg.ballotNext ballot := by
  have := Int.le_bmod (x := ballot + cfg.maxProposers) (m := 2 ^ 32) (by decide)
  simp only [Config.ballotNext, wrapInt32]
  omega

section Placed

variable {cfg : Config} {s t : LeaderState} {last : Int}

theorem RecordsPlaced.mono (h : RecordsPlaced cfg s last) {last' : Int} (le : last ≤ last') :
    RecordsPlaced cfg s last' := by
  refine ⟨?_, h.ballot_int⟩
  intro k used
  obtain ⟨hindex, hnonneg, hle⟩ := h.used k used
  exact ⟨hindex, hnonneg, by omega⟩

theorem RecordsPlaced.congr (h : RecordsPlaced cfg s last)
    (arr : t.proposerArray = s.proposerArray) : RecordsPlaced cfg t last := by
  refine ⟨?_, ?_⟩
  · rw [arr]
    exact h.used
  · rw [arr]
    exact h.ballot_int

theorem RecordsPlaced.setSlot (h : RecordsPlaced cfg s last) {i : Int} {r : ProposerRecord}
    (used : r.status ≠ .p1New → cfg.proposerArraySize.index r.iid =
      cfg.proposerArraySize.index i ∧ 0 ≤ r.iid ∧ r.iid ≤ last)
    (ballot : -2147483648 ≤ r.ballot) : RecordsPlaced cfg (s.setSlot cfg i r) last := by
  refine ⟨?_, ?_⟩
  · intro k
    rw [proposerArray_setSlot]
    split
    · next hk =>
        subst hk
        exact used
    · exact h.used k
  · intro k
    rw [proposerArray_setSlot]
    split
    · exact ballot
    · exact h.ballot_int k

/-- A record moves on within its instance. -/
theorem RecordsPlaced.setOwn (h : RecordsPlaced cfg s last) (i : Int) {r : ProposerRecord}
    (iid : r.iid = (s.slot cfg i).iid)
    (used : r.status ≠ .p1New → (s.slot cfg i).status ≠ .p1New)
    (ballot : -2147483648 ≤ r.ballot) : RecordsPlaced cfg (s.setSlot cfg i r) last := by
  refine h.setSlot ?_ ballot
  rw [iid]
  exact fun hr => h.used _ (used hr)

theorem RecordsPlaced.restart (h : RecordsPlaced cfg s last) (i : Int) :
    RecordsPlaced cfg (s.setSlot cfg i ((s.slot cfg i).restarted cfg)) last := by
  refine h.setOwn i rfl ?_ (ballotNext_int cfg _)
  intro used hnew
  apply used
  simp [ProposerRecord.restarted, ProposerRecord.clearPromises, hnew]

theorem RecordsPlaced.openInstance (h : RecordsPlaced cfg s last) (id_nonneg : 0 ≤ s.proposerId)
    {i : Int} (nonneg : 0 ≤ i) (le : i ≤ last) :
    RecordsPlaced cfg (openInstance cfg s i) last ∧
      (openInstance cfg s i).proposerId = s.proposerId ∧
      (openInstance cfg s i).p1info.firstToCheck = s.p1info.firstToCheck := by
  have hpos := cfg.maxProposers_pos
  have outcome := openInstance_outcome cfg s i
  generalize LibFastPaxos.openInstance cfg s i = u at outcome ⊢
  cases outcome with
  | held _ _ => exact ⟨h, rfl, rfl⟩
  | opened _ _ _ _ =>
      refine ⟨RecordsPlaced.congr (h.setSlot (i := i) (fun _ => ⟨rfl, nonneg, le⟩) ?_) rfl,
        rfl, rfl⟩
      simp only [ProposerRecord.opened, ProposerRecord.clearPromises, Config.firstBallot]
      omega

theorem RecordsPlaced.retryInstance (h : RecordsPlaced cfg s last) (i : Int) :
    RecordsPlaced cfg (retryInstance cfg s i) last ∧
      (retryInstance cfg s i).proposerId = s.proposerId ∧
      (retryInstance cfg s i).p1info = s.p1info := by
  have outcome := retryInstance_outcome cfg s i
  generalize LibFastPaxos.retryInstance cfg s i = u at outcome ⊢
  cases outcome with
  | skipped => exact ⟨h, rfl, rfl⟩
  | retried _ _ _ _ _ => exact ⟨(h.restart i).congr rfl, rfl, rfl⟩

/-- The end of the window moves with what is opened. -/
theorem RecordsPlaced.executePhase1 (h : RecordsPlaced cfg s last)
    (le : last ≤ max s.p1info.lastToCheck
      (s.p1info.highestReady + 1 + cfg.proposerPreexecWinSize))
    (first : s.p1info.firstToCheck ≤ 0) (ready : -1 ≤ s.p1info.highestReady)
    (id_nonneg : 0 ≤ s.proposerId) : RecordsChecked cfg (executePhase1 cfg s) := by
  have hloop : (RecordsPlaced cfg (openWindow cfg s) (max s.p1info.lastToCheck
        (s.p1info.highestReady + 1 + cfg.proposerPreexecWinSize)) ∧
      (openWindow cfg s).proposerId = s.proposerId ∧
      (openWindow cfg s).p1info.firstToCheck = s.p1info.firstToCheck) ∧
      SameFrame s (openWindow cfg s) := by
    simp only [openWindow]
    refine List.foldlRecOn (motive := fun u => (RecordsPlaced cfg u _ ∧
      u.proposerId = s.proposerId ∧ u.p1info.firstToCheck = s.p1info.firstToCheck) ∧
      SameFrame s u) _ _ ⟨⟨h.mono le, rfl, rfl⟩, .refl s⟩ ?_
    intro u ⟨⟨placed, hid, hfirst⟩, frame⟩ i hi
    obtain ⟨hfrom, hto⟩ := mem_idsFromTo.mp hi
    obtain ⟨placed', hid', hfirst'⟩ :=
      placed.openInstance (hid ▸ id_nonneg) (i := i) (by omega) (by omega)
    exact ⟨⟨placed', hid'.trans hid, hfirst'.trans hfirst⟩,
      frame.trans (openInstance_frame cfg u i)⟩
  obtain ⟨⟨placed, hid, hfirst⟩, frame⟩ := hloop
  obtain ⟨sent, heq⟩ := executePhase1_eq cfg s
  rw [heq]
  refine ⟨?_, ?_, ?_, hid ▸ id_nonneg⟩
  · dsimp only
    rw [frame.lastToCheck]
    exact placed.congr rfl
  · dsimp only
    rw [hfirst]
    omega
  · dsimp only
    rw [frame.highestReady]
    exact ready

theorem RecordsChecked.congr (h : RecordsChecked cfg s)
    (arr : t.proposerArray = s.proposerArray) (info : t.p1info = s.p1info)
    (id : t.proposerId = s.proposerId) : RecordsChecked cfg t := by
  refine ⟨?_, ?_, ?_, ?_⟩
  · rw [info]
    exact h.placed.congr arr
  · rw [info]
    exact h.first
  · rw [info]
    exact h.ready
  · rw [id]
    exact h.id_nonneg

theorem RecordsChecked.retryPending (h : RecordsChecked cfg s) :
    RecordsChecked cfg (retryPending cfg s) := by
  simp only [LibFastPaxos.retryPending]
  refine List.foldlRecOn (motive := RecordsChecked cfg) _ _ (h.congr rfl rfl rfl) ?_
  intro u hu i _
  obtain ⟨placed, hid, hinfo⟩ := hu.placed.retryInstance i
  refine ⟨?_, ?_, ?_, ?_⟩
  · rw [hinfo]
    exact placed
  · rw [hinfo]
    exact hu.first
  · rw [hinfo]
    exact hu.ready
  · rw [hid]
    exact hu.id_nonneg

theorem RecordsChecked.phase1CheckCb (h : RecordsChecked cfg s) :
    RecordsChecked cfg (phase1CheckCb cfg s) := by
  have hretry := h.retryPending
  obtain ⟨sent, hcase⟩ := phase1CheckCb_eq cfg s
  cases hcase with
  | inl hquiet =>
      rw [hquiet.1]
      exact hretry.congr rfl rfl rfl
  | inr hopens =>
      rw [hopens.1]
      have hopen := hretry.placed.executePhase1 (by omega) hretry.first hretry.ready
        hretry.id_nonneg
      exact hopen.congr rfl rfl rfl

theorem RecordsChecked.phase2CheckCb (h : RecordsChecked cfg s)
    (run : phase2CheckCb cfg s = some t) : RecordsChecked cfg t := by
  cases phase2CheckCb_check cfg s run with
  | progress _ => exact h.congr rfl rfl rfl
  | restarted _ _ msgSize prepares sent =>
      obtain ⟨-, hready, hlast⟩ := putBack_frame s.p1info (s.slot cfg s.currentIid).status
      refine ⟨?_, ?_, ?_, h.id_nonneg⟩
      · dsimp only
        rw [hlast]
        exact (h.placed.restart s.currentIid).congr rfl
      · dsimp only [Phase1Info.putBack]
        split <;> exact h.first
      · dsimp only
        rw [hready]
        exact h.ready

theorem RecordsChecked.handlePromise (h : RecordsChecked cfg s) (prom : PromiseMsg)
    (acceptorId : Int) : RecordsChecked cfg (handlePromise cfg s prom acceptorId).1 := by
  have hinfo := handlePromise_p1info cfg s prom acceptorId
  have outcome := handlePromise_outcome cfg s prom acceptorId
  generalize LibFastPaxos.handlePromise cfg s prom acceptorId = res at outcome hinfo ⊢
  cases outcome with
  | ignored _ => exact h
  | stored awaited _ =>
      refine ⟨?_, h.first, h.ready, h.id_nonneg⟩
      exact h.placed.setOwn prom.iid rfl (fun used => used) (h.placed.ballot_int _)
  | reached awaited _ p1info =>
      have hinfo : p1info = s.p1info.reach prom.iid := hinfo
      have hused : (s.slot cfg prom.iid).status ≠ .p1New := by
        rw [awaited.pending]
        decide
      have hplaced := h.placed.setOwn (r := { (s.slot cfg prom.iid).store prom acceptorId with
        status := .p1Ready }) prom.iid rfl (fun _ => hused) (h.placed.ballot_int _)
      have hfirst := h.first
      have hready := h.ready
      subst hinfo
      refine ⟨RecordsPlaced.congr (hplaced.mono ?_) rfl, ?_, ?_, h.id_nonneg⟩
      · simp only [Phase1Info.reach]
        omega
      · simp only [Phase1Info.reach]
        omega
      · simp only [Phase1Info.reach]
        omega

theorem RecordsChecked.phase2Instance (h : RecordsChecked cfg s) (i : Int) :
    RecordsChecked cfg (phase2Instance cfg s i) := by
  unfold LibFastPaxos.phase2Instance
  dsimp only
  split
  · exact h
  · next ready =>
      have hused : (s.slot cfg i).status ≠ .p1New := by
        intro hnew
        rw [hnew] at ready
        exact ready nofun
      have hset : RecordsChecked cfg
          (s.setSlot cfg i { s.slot cfg i with status := .p1Finished }) :=
        ⟨h.placed.setOwn i rfl (fun _ => hused) (h.placed.ballot_int _), h.first, h.ready,
          h.id_nonneg⟩
      split
      · simp only [appendAnymsgToBuffer]
        split <;> split <;> exact hset.congr rfl rfl rfl
      · exact hset.congr rfl rfl rfl

theorem RecordsChecked.leaderHandlePromiseMsg (h : RecordsChecked cfg s)
    (batch : PromiseBatchMsg) : RecordsChecked cfg (leaderHandlePromiseMsg cfg s batch) := by
  refine leaderHandlePromiseMsg_keeps (RecordsChecked cfg) ?_ ?_ ?_ ?_ h
  · exact fun u p _ hu => hu.handlePromise p batch.acceptorId
  · exact fun u i hu => hu.phase2Instance i
  · exact fun u hu => hu.congr rfl rfl rfl
  · exact fun u hu => hu.congr rfl rfl rfl

theorem leader_recordsChecked {propId : Int} (id : 0 ≤ propId) {s : LeaderState}
    {guard : LeaderState → LeaderEvent → Prop}
    (h : Reachable (leaderSystem cfg propId) guard s) : RecordsChecked cfg s := by
  refine Reachable.invariant ?_ ?_ h
  · intro s start
    subst start
    refine RecordsPlaced.executePhase1 ?_ (Int.le_max_left 0 _) (Int.le_refl 0)
      (Int.le_refl (-1)) id
    refine ⟨?_, ?_⟩
    · intro k used
      exact absurd rfl used
    · intro k
      change (-2147483648 : Int) ≤ 0
      decide
  · intro s event t _ inv _ move
    cases event with
    | promises batch =>
        obtain ⟨_, rfl⟩ := move
        exact inv.leaderHandlePromiseMsg batch
    | phase1Timer =>
        obtain rfl := move
        exact inv.phase1CheckCb
    | phase2Timer => exact inv.phase2CheckCb move
    | deliver iid =>
        obtain rfl := move
        exact ⟨inv.placed.congr rfl, inv.first, inv.ready, inv.id_nonneg⟩

end Placed

end LibFastPaxos
