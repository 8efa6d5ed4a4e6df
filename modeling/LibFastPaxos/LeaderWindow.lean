import LibFastPaxos.LeaderOutcomes
import LibFastPaxos.LeaderPhase2

/-!
The window of the leader. Everything from `current_iid` up to `last_to_check` has
been opened and not been delivered; `execute_phase1` continues where the window
ends, as its loop skips what the ring holds already, and what it overwrites is a
ring size below and so delivered.
-/

namespace LibFastPaxos

open Transition

/-- The records of the ring when everything up to `last` has been opened. -/
structure LeaderWindow (cfg : Config) (s : LeaderState) (last : Int) : Prop where
  current_nonneg : 0 ≤ s.currentIid
  current_le : s.currentIid ≤ last + 1
  sum_eq : s.p1info.pendingCount + s.p1info.readyCount = last + 1 - s.currentIid
  own : ∀ i, s.currentIid ≤ i → i ≤ last → (s.slot cfg i).iid = i
  opened : ∀ i, 0 ≤ i → i ≤ last → i ≤ (s.slot cfg i).iid ∧ (s.slot cfg i).status ≠ .p1New
  below : ∀ k, (s.proposerArray k).status ≠ .p1New → (s.proposerArray k).iid ≤ last

/-- The same instances in the same slots, and as many in the window. -/
structure SameWindow (s t : LeaderState) : Prop where
  current : t.currentIid = s.currentIid
  sum : t.p1info.pendingCount + t.p1info.readyCount = s.p1info.pendingCount + s.p1info.readyCount
  iid : ∀ k, (t.proposerArray k).iid = (s.proposerArray k).iid
  new : ∀ k, (t.proposerArray k).status = .p1New ↔ (s.proposerArray k).status = .p1New

section Windows

variable {cfg : Config} {s t u : LeaderState} {last : Int}

theorem SameWindow.refl (s : LeaderState) : SameWindow s s :=
  ⟨rfl, rfl, fun _ => rfl, fun _ => Iff.rfl⟩

theorem SameWindow.trans (h : SameWindow s t) (h' : SameWindow t u) : SameWindow s u :=
  ⟨h'.current.trans h.current, h'.sum.trans h.sum, fun k => (h'.iid k).trans (h.iid k),
    fun k => (h'.new k).trans (h.new k)⟩

theorem LeaderWindow.congr (h : LeaderWindow cfg s last) (same : SameWindow s t) :
    LeaderWindow cfg t last := by
  have hiid : ∀ i, (t.slot cfg i).iid = (s.slot cfg i).iid := fun i => same.iid _
  have hnew : ∀ i, (t.slot cfg i).status = .p1New ↔ (s.slot cfg i).status = .p1New :=
    fun i => same.new _
  refine ⟨?_, ?_, ?_, ?_, ?_, ?_⟩
  · rw [same.current]
    exact h.current_nonneg
  · rw [same.current]
    exact h.current_le
  · rw [same.sum, same.current]
    exact h.sum_eq
  · rw [same.current]
    intro i hi hle
    rw [hiid]
    exact h.own i hi hle
  · intro i hi hle
    rw [hiid, Ne, hnew]
    exact h.opened i hi hle
  · intro k hused
    rw [Ne, same.new] at hused
    rw [same.iid]
    exact h.below k hused

/-- A record replaced by one of the same instance, both in use or both not. -/
theorem SameWindow.setSlot (iid : Int) {r : ProposerRecord}
    (hiid : r.iid = (s.slot cfg iid).iid)
    (hnew : r.status = .p1New ↔ (s.slot cfg iid).status = .p1New) :
    SameWindow s (s.setSlot cfg iid r) := by
  refine ⟨rfl, rfl, ?_, ?_⟩
  · intro k
    rw [proposerArray_setSlot]
    split
    · next hk =>
        subst hk
        exact hiid
    · rfl
  · intro k
    rw [proposerArray_setSlot]
    split
    · next hk =>
        subst hk
        exact hnew
    · exact Iff.rfl

/-! ### Opening instances -/

theorem LeaderWindow.openHeld (h : LeaderWindow cfg s last) {i : Int} (nonneg : 0 ≤ i)
    (le : i ≤ last) : openInstance cfg s i = s := by
  obtain ⟨hle, hused⟩ := h.opened i nonneg le
  have outcome := openInstance_outcome cfg s i
  generalize openInstance cfg s i = u at outcome ⊢
  cases outcome with
  | held _ _ => rfl
  | opened free msgSize prepares sent =>
      cases free with
      | inl hlt => omega
      | inr hnew => exact absurd hnew hused

/-- The instance after the window takes a free slot or one a ring size below. -/
theorem LeaderWindow.openNext (h : LeaderWindow cfg s last)
    (room : last + 1 < s.currentIid + cfg.proposerArraySize.size) :
    LeaderWindow cfg (openInstance cfg s (last + 1)) (last + 1) := by
  have hnonneg := h.current_nonneg
  have hcurrent := h.current_le
  have hsum := h.sum_eq
  have outcome := openInstance_outcome cfg s (last + 1)
  generalize openInstance cfg s (last + 1) = u at outcome ⊢
  cases outcome with
  | held held used =>
      have := h.below _ used
      change (s.slot cfg (last + 1)).iid ≤ last at this
      omega
  | opened free msgSize prepares sent =>
      have hslot : ∀ i, LeaderState.slot
          { s.setSlot cfg (last + 1)
              ((s.slot cfg (last + 1)).opened cfg s.proposerId (last + 1)) with
            p1info := { s.p1info with pendingCount := s.p1info.pendingCount + 1 }
            msgSize := msgSize
            prepares := prepares
            sent := sent } cfg i =
          (s.setSlot cfg (last + 1)
            ((s.slot cfg (last + 1)).opened cfg s.proposerId (last + 1))).slot cfg i :=
        fun _ => rfl
      refine ⟨hnonneg, ?_, ?_, ?_, ?_, ?_⟩
      · change s.currentIid ≤ last + 1 + 1
        omega
      · change s.p1info.pendingCount + 1 + s.p1info.readyCount = last + 1 + 1 - s.currentIid
        omega
      · intro i hi hle
        have hi : s.currentIid ≤ i := hi
        rw [hslot]
        by_cases hlast : i = last + 1
        · subst hlast
          rw [slot_setSlot]
          rfl
        · have hne : cfg.proposerArraySize.index i ≠ cfg.proposerArraySize.index (last + 1) := by
            intro heq
            have := cfg.proposerArraySize.eq_of_index_eq (by omega) (by omega) heq
              (by omega) (by omega)
            omega
          rw [slot_setSlot_of_ne cfg s _ _ hne]
          exact h.own i hi (by omega)
      · intro i hi hle
        rw [hslot]
        by_cases heq : cfg.proposerArraySize.index i = cfg.proposerArraySize.index (last + 1)
        · rw [slot_congr cfg _ _ heq, slot_setSlot]
          exact ⟨hle, by simp [ProposerRecord.opened, ProposerRecord.clearPromises]⟩
        · rw [slot_setSlot_of_ne cfg s _ _ heq]
          refine h.opened i hi ?_
          have : i ≠ last + 1 := fun hlast => heq (congrArg _ hlast)
          omega
      · intro k
        dsimp only
        rw [proposerArray_setSlot]
        split
        · exact fun _ => Int.le_refl _
        · intro used
          have := h.below k used
          omega

/-- The rule for a loop over ascending ids: what holds before `first` and is carried from
`i` to `i + 1` holds behind `last`. -/
theorem foldl_idsFromTo (step : LeaderState → Int → LeaderState) (Inv : LeaderState → Int → Prop)
    {first last : Int} (le : first ≤ last + 1) (start : Inv s first)
    (carried : ∀ u i, first ≤ i → i ≤ last → Inv u i → Inv (step u i) (i + 1)) :
    Inv ((idsFromTo first last).foldl step s) (last + 1) := by
  obtain ⟨n, hn⟩ : ∃ n : Nat, last + 1 = first + n := ⟨(last + 1 - first).toNat, by omega⟩
  have hlen : (last - first + 1).toNat = n := by omega
  have hloop : ∀ m : Nat, m ≤ n →
      Inv (((List.range m).map fun (k : Nat) => first + (k : Int)).foldl step s) (first + m) := by
    intro m hm
    induction m with
    | zero => simpa using start
    | succ m ih =>
        rw [List.range_succ, List.map_append, List.foldl_append]
        have hnext := carried _ (first + m) (by omega) (by omega) (ih (by omega))
        have hcast : first + ((m + 1 : Nat) : Int) = first + m + 1 := by omega
        rw [hcast]
        exact hnext
  rw [idsFromTo, hlen, hn]
  exact hloop n (Nat.le_refl n)

/-- What the loop of `execute_phase1` leaves alone. -/
structure SameFrame (s t : LeaderState) : Prop where
  current : t.currentIid = s.currentIid
  p2Current : t.p2CurrentIid = s.p2CurrentIid
  highestReady : t.p1info.highestReady = s.p1info.highestReady
  lastToCheck : t.p1info.lastToCheck = s.p1info.lastToCheck

theorem SameFrame.refl (s : LeaderState) : SameFrame s s := ⟨rfl, rfl, rfl, rfl⟩

theorem SameFrame.trans (h : SameFrame s t) (h' : SameFrame t u) : SameFrame s u :=
  ⟨h'.current.trans h.current, h'.p2Current.trans h.p2Current,
    h'.highestReady.trans h.highestReady, h'.lastToCheck.trans h.lastToCheck⟩

theorem openInstance_frame (cfg : Config) (s : LeaderState) (i : Int) :
    SameFrame s (openInstance cfg s i) := by
  have outcome := openInstance_outcome cfg s i
  generalize openInstance cfg s i = u at outcome ⊢
  cases outcome with
  | held _ _ => exact .refl s
  | opened _ _ _ _ => exact ⟨rfl, rfl, rfl, rfl⟩

/-- `execute_phase1` moves the end of the window to the end of its loop. -/
theorem LeaderWindow.openWindow (h : LeaderWindow cfg s last)
    (low : -1 ≤ s.p1info.highestReady) (high : s.p1info.highestReady ≤ last)
    (win : 0 ≤ cfg.proposerPreexecWinSize)
    (room : s.p1info.highestReady + 1 + cfg.proposerPreexecWinSize <
      s.currentIid + cfg.proposerArraySize.size) :
    LeaderWindow cfg (openWindow cfg s)
        (max last (s.p1info.highestReady + 1 + cfg.proposerPreexecWinSize)) ∧
      SameFrame s (openWindow cfg s) := by
  have hstart : LeaderWindow cfg s (max last (s.p1info.highestReady + 1 - 1)) := by
    have hmax : max last (s.p1info.highestReady + 1 - 1) = last := by omega
    rw [hmax]
    exact h
  have hloop := foldl_idsFromTo (openInstance cfg)
    (fun u i => LeaderWindow cfg u (max last (i - 1)) ∧ SameFrame s u)
    (by omega : s.p1info.highestReady + 1 ≤
      s.p1info.highestReady + 1 + cfg.proposerPreexecWinSize + 1)
    ⟨hstart, .refl s⟩ ?_
  · rw [Int.add_sub_cancel] at hloop
    exact hloop
  · intro u i hi hle ⟨window, frame⟩
    refine ⟨?_, frame.trans (openInstance_frame cfg u i)⟩
    rw [Int.add_sub_cancel]
    by_cases hlast : i ≤ last
    · have hold : max last (i - 1) = last := by omega
      have hnew : max last i = last := by omega
      rw [hold] at window
      rw [hnew, window.openHeld (by omega) hlast]
      exact window
    · have hold : max last (i - 1) = i - 1 := by omega
      have hnew : max last i = i := by omega
      rw [hold] at window
      rw [hnew]
      have hnext := window.openNext (by rw [frame.current]; omega)
      rw [Int.sub_add_cancel] at hnext
      exact hnext

/-! ### Every handler keeps the window -/

/-- The window ends at `last_to_check` and is no larger than its threshold allows. -/
structure WindowExact (cfg : Config) (s : LeaderState) : Prop where
  window : LeaderWindow cfg s s.p1info.lastToCheck
  bounded : s.p1info.lastToCheck + 1 - s.currentIid ≤
    cfg.proposerPreexecWinSize + cfg.proposerPreexecWinSize / 2
  ready_low : -1 ≤ s.p1info.highestReady
  ready_high : s.p1info.highestReady ≤ s.p1info.lastToCheck

theorem WindowExact.congr (h : WindowExact cfg s) (same : SameWindow s t)
    (ready : t.p1info.highestReady = s.p1info.highestReady)
    (last : t.p1info.lastToCheck = s.p1info.lastToCheck) : WindowExact cfg t := by
  refine ⟨?_, ?_, ?_, ?_⟩
  · rw [last]
    exact h.window.congr same
  · rw [last, same.current]
    exact h.bounded
  · rw [ready]
    exact h.ready_low
  · rw [ready, last]
    exact h.ready_high

/-- Opening the window anew, from a window of this length at most. -/
theorem executePhase1_window (h : LeaderWindow cfg s last)
    (lastToCheck : max last (s.p1info.highestReady + 1 + cfg.proposerPreexecWinSize) =
      max s.p1info.lastToCheck (s.p1info.highestReady + 1 + cfg.proposerPreexecWinSize))
    (low : -1 ≤ s.p1info.highestReady) (high : s.p1info.highestReady ≤ last)
    (win : 2 ≤ cfg.proposerPreexecWinSize)
    (ring : cfg.proposerPreexecWinSize + cfg.proposerPreexecWinSize / 2 ≤
      cfg.proposerArraySize.size)
    (short : last + 1 - s.currentIid < cfg.proposerPreexecWinSize / 2) :
    WindowExact cfg (executePhase1 cfg s) ∧
      (executePhase1 cfg s).p1info.lastToCheck =
        max last (s.p1info.highestReady + 1 + cfg.proposerPreexecWinSize) ∧
      (executePhase1 cfg s).currentIid = s.currentIid ∧
      (executePhase1 cfg s).p2CurrentIid = s.p2CurrentIid ∧
      (executePhase1 cfg s).p1info.highestReady = s.p1info.highestReady := by
  obtain ⟨hopen, frame⟩ := h.openWindow low high (by omega) (by omega)
  obtain ⟨sent, heq⟩ := executePhase1_eq cfg s
  have hlast : (executePhase1 cfg s).p1info.lastToCheck =
      max last (s.p1info.highestReady + 1 + cfg.proposerPreexecWinSize) := by
    rw [heq, lastToCheck]
    dsimp only
    rw [frame.lastToCheck]
  have hcurrent : (executePhase1 cfg s).currentIid = s.currentIid := by
    rw [heq]
    exact frame.current
  have hready : (executePhase1 cfg s).p1info.highestReady = s.p1info.highestReady := by
    rw [heq]
    exact frame.highestReady
  refine ⟨⟨?_, ?_, ?_, ?_⟩, hlast, hcurrent, ?_, hready⟩
  · rw [hlast]
    refine hopen.congr ?_
    rw [heq]
    exact ⟨rfl, rfl, fun _ => rfl, fun _ => Iff.rfl⟩
  · rw [hlast, hcurrent]
    omega
  · rw [hready]
    exact low
  · rw [hready, hlast]
    omega
  · rw [heq]
    exact frame.p2Current

theorem retryInstance_same (cfg : Config) (s : LeaderState) (i : Int) :
    SameWindow s (retryInstance cfg s i) ∧ SameFrame s (retryInstance cfg s i) := by
  have outcome := retryInstance_outcome cfg s i
  generalize retryInstance cfg s i = u at outcome ⊢
  cases outcome with
  | skipped => exact ⟨.refl s, .refl s⟩
  | retried own pending msgSize prepares sent =>
      refine ⟨?_, ⟨rfl, rfl, rfl, rfl⟩⟩
      have hslot : SameWindow s (s.setSlot cfg i ((s.slot cfg i).restarted cfg)) := by
        rw [ProposerRecord.restarted_pending cfg pending]
        exact .setSlot i rfl Iff.rfl
      exact ⟨hslot.current, hslot.sum, hslot.iid, hslot.new⟩

theorem retryPending_same (cfg : Config) (s : LeaderState) :
    SameWindow s (retryPending cfg s) ∧ SameFrame s (retryPending cfg s) := by
  have hinit : SameWindow s s.initPrepares ∧ SameFrame s s.initPrepares :=
    ⟨⟨rfl, rfl, fun _ => rfl, fun _ => Iff.rfl⟩, ⟨rfl, rfl, rfl, rfl⟩⟩
  simp only [retryPending]
  refine List.foldlRecOn (motive := fun u => SameWindow s u ∧ SameFrame s u) _ _ hinit ?_
  intro u ⟨same, frame⟩ i _
  obtain ⟨same', frame'⟩ := retryInstance_same cfg u i
  exact ⟨same.trans same', frame.trans frame'⟩

/-- A phase-1 check keeps the window, and opens one if few instances are left. -/
theorem WindowExact.phase1CheckCb (h : WindowExact cfg s)
    (win : 2 ≤ cfg.proposerPreexecWinSize)
    (ring : cfg.proposerPreexecWinSize + cfg.proposerPreexecWinSize / 2 ≤
      cfg.proposerArraySize.size) :
    WindowExact cfg (phase1CheckCb cfg s) ∧
      (phase1CheckCb cfg s).currentIid = s.currentIid ∧
      (phase1CheckCb cfg s).p2CurrentIid = s.p2CurrentIid ∧
      (phase1CheckCb cfg s).p1info.highestReady = s.p1info.highestReady ∧
      s.p1info.lastToCheck ≤ (phase1CheckCb cfg s).p1info.lastToCheck ∧
      (s.p1info.lastToCheck + 1 - s.currentIid < cfg.proposerPreexecWinSize / 2 →
        (phase1CheckCb cfg s).p1info.lastToCheck =
          max s.p1info.lastToCheck
            (s.p1info.highestReady + 1 + cfg.proposerPreexecWinSize)) := by
  obtain ⟨same, frame⟩ := retryPending_same cfg s
  have hretry : WindowExact cfg (retryPending cfg s) :=
    h.congr same frame.highestReady frame.lastToCheck
  have hsum := hretry.window.sum_eq
  rw [frame.lastToCheck, frame.current] at hsum
  obtain ⟨sent, hcase⟩ := phase1CheckCb_eq cfg s
  cases hcase with
  | inl hquiet =>
      obtain ⟨heq, hlow⟩ := hquiet
      unfold WindowLow at hlow
      rw [heq]
      refine ⟨hretry.congr ⟨rfl, rfl, fun _ => rfl, fun _ => Iff.rfl⟩ rfl rfl, frame.current,
        frame.p2Current, frame.highestReady, Int.le_of_eq frame.lastToCheck.symm, ?_⟩
      intro hshort
      omega
  | inr hopens =>
      obtain ⟨heq, hlow⟩ := hopens
      unfold WindowLow at hlow
      obtain ⟨hopen, hlast, hcurrent, hp2, hready⟩ := executePhase1_window hretry.window rfl
        hretry.ready_low hretry.ready_high win ring
        (by rw [frame.lastToCheck, frame.current]; omega)
      rw [heq]
      refine ⟨hopen.congr ⟨rfl, rfl, fun _ => rfl, fun _ => Iff.rfl⟩ rfl rfl,
        hcurrent.trans frame.current, hp2.trans frame.p2Current,
        hready.trans frame.highestReady, ?_, fun _ => ?_⟩
      · rw [frame.lastToCheck] at hlast
        dsimp only
        omega
      · rw [frame.lastToCheck, frame.highestReady] at hlast
        exact hlast

theorem putBack_frame (info : Phase1Info) (status : StatusFlag) :
    (info.putBack status).pendingCount + (info.putBack status).readyCount =
        info.pendingCount + info.readyCount ∧
      (info.putBack status).highestReady = info.highestReady ∧
      (info.putBack status).lastToCheck = info.lastToCheck := by
  unfold Phase1Info.putBack
  split
  · refine ⟨?_, rfl, rfl⟩
    dsimp only
    omega
  · exact ⟨rfl, rfl, rfl⟩

theorem WindowExact.phase2CheckCb (h : WindowExact cfg s) (run : phase2CheckCb cfg s = some t) :
    WindowExact cfg t ∧ t.currentIid = s.currentIid ∧ t.p2CurrentIid = s.currentIid ∧
      t.p1info.highestReady = s.p1info.highestReady := by
  cases phase2CheckCb_check cfg s run with
  | progress _ =>
      exact ⟨h.congr ⟨rfl, rfl, fun _ => rfl, fun _ => Iff.rfl⟩ rfl rfl, rfl, rfl, rfl⟩
  | restarted _ own msgSize prepares sent =>
      obtain ⟨hsum, hready, hlast⟩ := putBack_frame s.p1info (s.slot cfg s.currentIid).status
      have hslot : SameWindow s
          (s.setSlot cfg s.currentIid ((s.slot cfg s.currentIid).restarted cfg)) := by
        refine .setSlot _ rfl ?_
        change (if (s.slot cfg s.currentIid).status = .p1Finished then StatusFlag.p1Pending
          else (s.slot cfg s.currentIid).status) = .p1New ↔ _
        split
        · next finished => simp [finished]
        · exact Iff.rfl
      exact ⟨h.congr ⟨rfl, hsum, hslot.iid, hslot.new⟩ hready hlast, rfl, rfl, hready⟩

/-- What promises leave alone; `highest_ready` can only grow. -/
structure ReadyFrame (s t : LeaderState) : Prop where
  current : t.currentIid = s.currentIid
  p2Current : t.p2CurrentIid = s.p2CurrentIid
  lastToCheck : t.p1info.lastToCheck = s.p1info.lastToCheck
  highestReady : s.p1info.highestReady ≤ t.p1info.highestReady

theorem ReadyFrame.trans (h : ReadyFrame s t) (h' : ReadyFrame t u) : ReadyFrame s u :=
  ⟨h'.current.trans h.current, h'.p2Current.trans h.p2Current,
    h'.lastToCheck.trans h.lastToCheck, h.highestReady.trans h'.highestReady⟩

theorem SameFrame.readyFrame (h : SameFrame s t) : ReadyFrame s t :=
  ⟨h.current, h.p2Current, h.lastToCheck, Int.le_of_eq h.highestReady.symm⟩

theorem WindowExact.handlePromise (h : WindowExact cfg s) (prom : PromiseMsg) (acceptorId : Int) :
    WindowExact cfg (handlePromise cfg s prom acceptorId).1 ∧
      ReadyFrame s (handlePromise cfg s prom acceptorId).1 ∧
      ((handlePromise cfg s prom acceptorId).2 = 1 →
        prom.iid ≤ (handlePromise cfg s prom acceptorId).1.p1info.highestReady) := by
  have hinfo := handlePromise_p1info cfg s prom acceptorId
  have hpending : (s.slot cfg prom.iid).Awaits prom acceptorId →
      (s.slot cfg prom.iid).status ≠ .p1New := by
    intro awaited
    rw [awaited.pending]
    decide
  have outcome := handlePromise_outcome cfg s prom acceptorId
  generalize LibFastPaxos.handlePromise cfg s prom acceptorId = res at outcome hinfo ⊢
  cases outcome with
  | ignored _ => exact ⟨h, (SameFrame.refl s).readyFrame, nofun⟩
  | stored awaited short =>
      have hslot : SameWindow s (s.setSlot cfg prom.iid
          ((s.slot cfg prom.iid).store prom acceptorId)) := .setSlot _ rfl Iff.rfl
      exact ⟨h.congr hslot rfl rfl, ⟨rfl, rfl, rfl, Int.le_refl _⟩, nofun⟩
  | reached awaited quorum p1info =>
      have hinfo : p1info = s.p1info.reach prom.iid := hinfo
      subst hinfo
      have hle : prom.iid ≤ s.p1info.lastToCheck := by
        rw [← awaited.iid_eq]
        exact h.window.below _ (hpending awaited)
      have hhigh := h.ready_high
      have hlow := h.ready_low
      have hlast : (s.p1info.reach prom.iid).lastToCheck = s.p1info.lastToCheck := by
        simp only [Phase1Info.reach]
        omega
      have hslot : SameWindow s (s.setSlot cfg prom.iid
          { (s.slot cfg prom.iid).store prom acceptorId with status := .p1Ready }) := by
        refine .setSlot _ rfl ?_
        simp [hpending awaited]
      refine ⟨⟨?_, ?_, ?_, ?_⟩, ⟨rfl, rfl, hlast, ?_⟩, fun _ => ?_⟩
      · rw [hlast]
        refine h.window.congr ⟨rfl, ?_, hslot.iid, hslot.new⟩
        simp only [Phase1Info.reach]
        omega
      · rw [hlast]
        exact h.bounded
      · simp only [Phase1Info.reach]
        omega
      · simp only [Phase1Info.reach]
        omega
      · simp only [Phase1Info.reach]
        omega
      · simp only [Phase1Info.reach]
        omega

/-- `execute_phase2` sends and finishes, and does nothing else. -/
theorem executePhase2_frame (cfg : Config) (s : LeaderState) (first last : Int) :
    SameWindow s (executePhase2 cfg s first last) ∧
      SameFrame s (executePhase2 cfg s first last) := by
  have hstep : ∀ (u : LeaderState) (i : Int), (phase2Instance cfg u i).p1info = u.p1info ∧
      SameFrame u (phase2Instance cfg u i) := by
    intro u i
    unfold phase2Instance
    dsimp only
    split
    · exact ⟨rfl, .refl u⟩
    · split
      · simp only [appendAnymsgToBuffer]
        split <;> split <;> exact ⟨rfl, rfl, rfl, rfl, rfl⟩
      · exact ⟨rfl, rfl, rfl, rfl, rfl⟩
  have hbuffer : ∀ u v : LeaderState, v.p1info = u.p1info → SameFrame u v →
      u.p1info = s.p1info ∧ SameFrame s u → v.p1info = s.p1info ∧ SameFrame s v :=
    fun u v info frame hu => ⟨info.trans hu.1, hu.2.trans frame⟩
  have hframe : (executePhase2 cfg s first last).p1info = s.p1info ∧
      SameFrame s (executePhase2 cfg s first last) := by
    refine executePhase2_keeps (fun u => u.p1info = s.p1info ∧ SameFrame s u) ?_ ?_ ?_
      ⟨rfl, .refl s⟩ first last
    · exact fun u i => hbuffer u _ (hstep u i).1 (hstep u i).2
    · exact fun u => hbuffer u _ rfl ⟨rfl, rfl, rfl, rfl⟩
    · exact fun u => hbuffer u _ rfl ⟨rfl, rfl, rfl, rfl⟩
  refine ⟨⟨hframe.2.current, by rw [hframe.1], ?_, ?_⟩, hframe.2⟩
  · intro k
    exact (executePhase2_slot cfg s first last k).1
  · intro k
    rw [(executePhase2_slot cfg s first last k).2]
    split
    · next hready => simp [hready.1]
    · exact Iff.rfl

/-- The promises of a batch move instances from pending to ready. -/
theorem WindowExact.storePromises (h : WindowExact cfg s) (acceptorId : Int)
    (proms : List PromiseMsg) :
    WindowExact cfg (proms.foldl (fun s prom =>
        (LibFastPaxos.handlePromise cfg s prom acceptorId).1) s) ∧
      ReadyFrame s (proms.foldl (fun s prom =>
        (LibFastPaxos.handlePromise cfg s prom acceptorId).1) s) ∧
      ∀ i ∈ reachedQuorum cfg acceptorId s proms,
        i ≤ (proms.foldl (fun s prom =>
          (LibFastPaxos.handlePromise cfg s prom acceptorId).1) s).p1info.highestReady := by
  induction proms generalizing s with
  | nil => exact ⟨h, (SameFrame.refl s).readyFrame, fun i hi => by cases hi⟩
  | cons prom proms ih =>
      obtain ⟨hstep, frame, hreached⟩ := h.handlePromise prom acceptorId
      obtain ⟨hrest, frame', hreached'⟩ := ih hstep
      rw [List.foldl_cons]
      refine ⟨hrest, frame.trans frame', ?_⟩
      intro i hi
      rw [reachedQuorum] at hi
      dsimp only at hi
      split at hi
      · next hret =>
          cases List.mem_cons.mp hi with
          | inl heq =>
              subst heq
              exact (hreached hret).trans frame'.highestReady
          | inr hmem => exact hreached' i hmem
      · exact hreached' i hi

/-- A batch moves no instance in or out of the window. -/
theorem WindowExact.leaderHandlePromiseMsg (h : WindowExact cfg s) (batch : PromiseBatchMsg) :
    WindowExact cfg (leaderHandlePromiseMsg cfg s batch) ∧
      ReadyFrame s (leaderHandlePromiseMsg cfg s batch) ∧
      ∀ i ∈ reached cfg s batch,
        i ≤ (leaderHandlePromiseMsg cfg s batch).p1info.highestReady := by
  obtain ⟨hstored, frame, hreached⟩ :=
    h.storePromises batch.acceptorId (batch.data.take batch.count.toNat)
  obtain ⟨same, frame'⟩ := executePhase2_frame cfg (LibFastPaxos.storePromises cfg s batch)
    (firstIid batch) (lastIid batch)
  rw [leaderHandlePromiseMsg_eq]
  refine ⟨WindowExact.congr hstored same frame'.highestReady frame'.lastToCheck,
    ReadyFrame.trans frame frame'.readyFrame, ?_⟩
  rw [frame'.highestReady]
  exact hreached

theorem WindowExact.leaderDeliverValue (h : WindowExact cfg s) {iid : Int}
    (inOrder : iid = s.currentIid) (prepared : iid ≤ s.p1info.lastToCheck) :
    WindowExact cfg (leaderDeliverValue s iid) := by
  subst inOrder
  have hnonneg := h.window.current_nonneg
  have hsum := h.window.sum_eq
  have hbounded := h.bounded
  refine ⟨⟨?_, ?_, ?_, ?_, h.window.opened, h.window.below⟩, ?_, h.ready_low, h.ready_high⟩
  · change 0 ≤ s.currentIid + 1
    omega
  · change s.currentIid + 1 ≤ s.p1info.lastToCheck + 1
    omega
  · change s.p1info.pendingCount + (s.p1info.readyCount - 1) =
      s.p1info.lastToCheck + 1 - (s.currentIid + 1)
    omega
  · intro i hi hle
    have hi : s.currentIid + 1 ≤ i := hi
    exact h.window.own i (by omega) hle
  · change s.p1info.lastToCheck + 1 - (s.currentIid + 1) ≤ _
    omega

theorem leaderInit_window {cfg : Config} (win : 2 ≤ cfg.proposerPreexecWinSize)
    (ring : cfg.proposerPreexecWinSize + cfg.proposerPreexecWinSize / 2 ≤
      cfg.proposerArraySize.size) (propId : Int) :
    WindowExact cfg (leaderInit cfg propId) ∧ (leaderInit cfg propId).currentIid = 0 ∧
      (leaderInit cfg propId).p2CurrentIid = 0 ∧
      (leaderInit cfg propId).p1info.highestReady = -1 ∧
      0 ≤ (leaderInit cfg propId).p1info.lastToCheck := by
  unfold leaderInit
  extract_lets s₀ s₁ s₂
  have hempty : LeaderWindow cfg s₂.initPrepares (-1) := by
    refine ⟨Int.le_refl 0, Int.le_refl 0, rfl, ?_, ?_, ?_⟩
    · intro i hi hle
      have hi : 0 ≤ i := hi
      omega
    · intro i hi hle
      omega
    · intro k used
      exact absurd rfl used
  have hhigh : s₂.initPrepares.p1info.highestReady = -1 := rfl
  have hlast : s₂.initPrepares.p1info.lastToCheck = 0 := rfl
  have hcurrent : s₂.initPrepares.currentIid = 0 := rfl
  obtain ⟨hwindow, hlast', hcurrent', hp2, hready⟩ := executePhase1_window hempty
    (by rw [hhigh, hlast]; omega) (by rw [hhigh]) (by rw [hhigh]) win ring
    (by rw [hcurrent]; omega)
  refine ⟨hwindow, hcurrent', hp2, hready, ?_⟩
  rw [hlast', hhigh]
  omega

end Windows

/-- Instances are delivered in order, and after they have been prepared. -/
def DeliversPrepared (s : LeaderState) : LeaderEvent → Prop
  | .deliver iid => iid = s.currentIid ∧ iid ≤ s.p1info.lastToCheck
  | _ => True

theorem leader_windowExact {cfg : Config} (win : 2 ≤ cfg.proposerPreexecWinSize)
    (ring : cfg.proposerPreexecWinSize + cfg.proposerPreexecWinSize / 2 ≤
      cfg.proposerArraySize.size) {propId : Int} {s : LeaderState}
    (h : Reachable (leaderSystem cfg propId) DeliversPrepared s) : WindowExact cfg s := by
  refine Reachable.invariant ?_ ?_ h
  · intro s start
    subst start
    exact (leaderInit_window win ring propId).1
  · intro s event t _ inv delivers move
    cases event with
    | promises batch =>
        obtain ⟨_, rfl⟩ := move
        exact (inv.leaderHandlePromiseMsg batch).1
    | phase1Timer =>
        obtain rfl := move
        exact (inv.phase1CheckCb win ring).1
    | phase2Timer => exact (inv.phase2CheckCb move).1
    | deliver iid =>
        obtain rfl := move
        exact inv.leaderDeliverValue delivers.1 delivers.2

/-- The counters are exact, the window stays below its bound, and every instance of it has
its own record, which is `p1_pending` or `p1_finished`. -/
theorem window_accounting_exact {cfg : Config} (win : 2 ≤ cfg.proposerPreexecWinSize)
    (ring : cfg.proposerPreexecWinSize + cfg.proposerPreexecWinSize / 2 ≤
      cfg.proposerArraySize.size) {propId : Int} {s : LeaderState}
    (h : Reachable (leaderSystem cfg propId) DeliversPrepared s) :
    s.p1info.pendingCount + s.p1info.readyCount = s.p1info.lastToCheck + 1 - s.currentIid ∧
      s.p1info.pendingCount + s.p1info.readyCount ≤
        cfg.proposerPreexecWinSize + cfg.proposerPreexecWinSize / 2 ∧
      ∀ i, s.currentIid ≤ i → i ≤ s.p1info.lastToCheck →
        (s.slot cfg i).iid = i ∧
          ((s.slot cfg i).status = .p1Pending ∨ (s.slot cfg i).status = .p1Finished) := by
  have hexact := leader_windowExact win ring h
  have hsum := hexact.window.sum_eq
  have hbounded := hexact.bounded
  refine ⟨hsum, by omega, ?_⟩
  intro i hi hle
  have hnonneg := hexact.window.current_nonneg
  obtain ⟨_, used⟩ := hexact.window.opened i (by omega) hle
  have none : (s.slot cfg i).status ≠ .p1Ready :=
    leader_noneReady h (cfg.proposerArraySize.index i)
  refine ⟨hexact.window.own i hi hle, ?_⟩
  cases hstatus : (s.slot cfg i).status with
  | p1New => exact absurd hstatus used
  | p1Pending => exact .inl rfl
  | p1Ready => exact absurd hstatus none
  | p1Finished => exact .inr rfl

/-- The first instances are delivered one after the other. -/
def deliveredUpTo (s : LeaderState) (n : Nat) : LeaderState :=
  (List.range n).foldl (fun s (iid : Nat) => leaderDeliverValue s iid) s

theorem deliveredUpTo_reachable {cfg : Config} {propId : Int} {s : LeaderState}
    (h : Reachable (leaderSystem cfg propId) DeliversPrepared s) (current : s.currentIid = 0)
    {n : Nat} (prepared : n ≤ s.p1info.lastToCheck + 1) :
    Reachable (leaderSystem cfg propId) DeliversPrepared (deliveredUpTo s n) ∧
      (deliveredUpTo s n).currentIid = n ∧
      (deliveredUpTo s n).p1info.lastToCheck = s.p1info.lastToCheck := by
  induction n with
  | zero => exact ⟨h, current, rfl⟩
  | succ n ih =>
      obtain ⟨hreach, hcurrent, hlast⟩ := ih (by omega)
      have hnext : deliveredUpTo s (n + 1) = leaderDeliverValue (deliveredUpTo s n) n := by
        simp [deliveredUpTo, List.range_succ]
      have hprepared : DeliversPrepared (deliveredUpTo s n) (.deliver n) :=
        ⟨hcurrent.symm, by omega⟩
      rw [hnext]
      refine ⟨.step hreach hprepared rfl, ?_, hlast⟩
      simp [leaderDeliverValue]

/-- An acceptor answers for all instances of the first window. -/
def windowPromises (acceptorId : Int) : PromiseBatchMsg where
  acceptorId := acceptorId
  count := 51
  data := (idsFromTo 0 50).map fun iid => ⟨iid, 20, -1, 0, []⟩

/-- The first window is prepared. -/
def windowPrepared : LeaderState :=
  [0, 1, 2].foldl (fun s acceptorId => leaderHandlePromiseMsg .shipped s
    (windowPromises acceptorId)) (leaderInit .shipped 0)

theorem windowPromises_wellFormed {acceptorId : Int} (low : 0 ≤ acceptorId)
    (high : acceptorId < 3) : (windowPromises acceptorId).WellFormed .shipped := by
  refine ⟨?_, low, high, ?_, ?_⟩
  · have hlength : (idsFromTo 0 50).length = 51 := by decide
    simp only [windowPromises, List.length_map, hlength]
    rfl
  · intro p hp
    obtain ⟨iid, hiid, rfl⟩ := List.mem_map.mp hp
    exact (mem_idsFromTo.mp hiid).1
  · have hids : (windowPromises acceptorId).data.map PromiseMsg.iid = idsFromTo 0 50 := by
      simp [windowPromises, Function.comp_def]
    rw [hids]
    exact idsFromTo_ascending 0 50

theorem windowPrepared_reachable :
    Reachable (leaderSystem .shipped 0) DeliversPrepared windowPrepared := by
  have hstep : ∀ (s : LeaderState) (a : Int), 0 ≤ a → a < 3 →
      Reachable (leaderSystem .shipped 0) DeliversPrepared s →
      Reachable (leaderSystem .shipped 0) DeliversPrepared
        (leaderHandlePromiseMsg .shipped s (windowPromises a)) := fun s a low high h =>
    .step (a := .promises (windowPromises a)) h trivial ⟨windowPromises_wellFormed low high, rfl⟩
  have hstart : Reachable (leaderSystem .shipped 0) DeliversPrepared (leaderInit .shipped 0) :=
    .init rfl
  simp only [windowPrepared, List.foldl_cons, List.foldl_nil]
  refine hstep _ 2 (by decide) (by decide) (hstep _ 1 (by decide) (by decide) ?_)
  exact hstep _ 0 (by decide) (by decide) hstart

/-- The check after 27 deliveries finds the window low and opens 51 instances more. -/
theorem window_accounting_exact_reopened :
    ∃ s, s = phase1CheckCb .shipped (deliveredUpTo windowPrepared 27) ∧
      s.p1info.pendingCount + s.p1info.readyCount = s.p1info.lastToCheck + 1 - s.currentIid ∧
      s.p1info.pendingCount + s.p1info.readyCount ≤ 75 ∧
      (s.currentIid, s.p1info.pendingCount, s.p1info.readyCount, s.p1info.lastToCheck) =
        (27, 51, 24, 101) := by
  have hlast : windowPrepared.p1info.lastToCheck = 50 := by decide +kernel
  have hdelivered := (deliveredUpTo_reachable windowPrepared_reachable (by decide +kernel)
    (n := 27) (by rw [hlast]; decide)).1
  have hchecked : Reachable (leaderSystem .shipped 0) DeliversPrepared
      (phase1CheckCb .shipped (deliveredUpTo windowPrepared 27)) :=
    .step (a := .phase1Timer) hdelivered trivial rfl
  have hexact := window_accounting_exact (by decide) (by decide) hchecked
  exact ⟨_, rfl, hexact.1, hexact.2.1, by decide +kernel⟩

end LibFastPaxos
