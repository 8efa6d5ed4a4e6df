import LibFastPaxos.LeaderRuns

/-!
What each handler of the leader can do to its records and counters. The prepares
that go into the send buffer on the way do not matter here.
-/

namespace LibFastPaxos

/-- A record as `execute_phase1` opens it. -/
def ProposerRecord.opened (cfg : Config) (propId : Int) (r : ProposerRecord) (i : Int) :
    ProposerRecord :=
  ProposerRecord.clearPromises
    { r with iid := i, status := .p1Pending, ballot := cfg.firstBallot propId }

/-- A record as a timer starts its phase 1 again, under the next ballot. -/
def ProposerRecord.restarted (cfg : Config) (r : ProposerRecord) : ProposerRecord :=
  ProposerRecord.clearPromises
    { r with
      status := if r.status = .p1Finished then .p1Pending else r.status
      ballot := cfg.ballotNext r.ballot }

section Outcomes

variable (cfg : Config) (s : LeaderState)

theorem addPrepareToBuffer_eq (iid ballot : Int) :
    ∃ msgSize prepares sent, addPrepareToBuffer s iid ballot =
      { s with msgSize := msgSize, prepares := prepares, sent := sent } := by
  simp only [addPrepareToBuffer]
  split <;> exact ⟨_, _, _, rfl⟩

inductive OpenOutcome (i : Int) : LeaderState → Prop where
  | held (held : i ≤ (s.slot cfg i).iid) (used : (s.slot cfg i).status ≠ .p1New) :
      OpenOutcome i s
  | opened (free : (s.slot cfg i).iid < i ∨ (s.slot cfg i).status = .p1New)
      (msgSize : Int) (prepares : PrepareBatchMsg) (sent : List PaxosMsg) :
      OpenOutcome i
        { s.setSlot cfg i ((s.slot cfg i).opened cfg s.proposerId i) with
          p1info := { s.p1info with pendingCount := s.p1info.pendingCount + 1 }
          msgSize := msgSize
          prepares := prepares
          sent := sent }

theorem openInstance_outcome (i : Int) : OpenOutcome cfg s i (openInstance cfg s i) := by
  simp only [openInstance]
  split
  · next free =>
      obtain ⟨msgSize, prepares, sent, heq⟩ := addPrepareToBuffer_eq
        (LeaderState.setSlot
          { s with p1info := { s.p1info with pendingCount := s.p1info.pendingCount + 1 } } cfg i
          ((s.slot cfg i).opened cfg s.proposerId i))
        i (cfg.firstBallot s.proposerId)
      exact heq ▸ .opened free msgSize prepares sent
  · next held =>
      obtain ⟨hiid, hused⟩ := not_or.mp held
      exact .held (by omega) hused

inductive RetryOutcome (i : Int) : LeaderState → Prop where
  | skipped : RetryOutcome i s
  | retried (own : (s.slot cfg i).iid = i) (pending : (s.slot cfg i).status = .p1Pending)
      (msgSize : Int) (prepares : PrepareBatchMsg) (sent : List PaxosMsg) :
      RetryOutcome i
        { s.setSlot cfg i ((s.slot cfg i).restarted cfg) with
          msgSize := msgSize
          prepares := prepares
          sent := sent }

theorem ProposerRecord.restarted_pending {r : ProposerRecord} (pending : r.status = .p1Pending) :
    r.restarted cfg =
      ProposerRecord.clearPromises { r with ballot := cfg.ballotNext r.ballot } := by
  simp [ProposerRecord.restarted, ProposerRecord.clearPromises, pending]

theorem retryInstance_outcome (i : Int) : RetryOutcome cfg s i (retryInstance cfg s i) := by
  simp only [retryInstance]
  split
  · next hpending =>
      rw [← ProposerRecord.restarted_pending cfg hpending.2]
      obtain ⟨msgSize, prepares, sent, heq⟩ := addPrepareToBuffer_eq
        (s.setSlot cfg i ((s.slot cfg i).restarted cfg)) ((s.slot cfg i).restarted cfg).iid
        ((s.slot cfg i).restarted cfg).ballot
      rw [heq]
      exact .retried hpending.1 hpending.2 msgSize prepares sent
  · exact .skipped

/-- The leader after the loop of `execute_phase1`. -/
def openWindow : LeaderState :=
  (idsFromTo (s.p1info.highestReady + 1)
    (s.p1info.highestReady + 1 + cfg.proposerPreexecWinSize)).foldl (openInstance cfg) s

theorem executePhase1_eq :
    ∃ sent, executePhase1 cfg s =
      { openWindow cfg s with
        p1info := { (openWindow cfg s).p1info with
          firstToCheck := min (openWindow cfg s).p1info.firstToCheck (s.p1info.highestReady + 1)
          lastToCheck := max (openWindow cfg s).p1info.lastToCheck
            (s.p1info.highestReady + 1 + cfg.proposerPreexecWinSize) }
        sent := sent } := by
  have hmax : ∀ last stop : Int, (if last < stop then stop else last) = max last stop := by
    intro last stop
    split <;> omega
  have hmin : ∀ first start : Int, (if first > start then start else first) = min first start := by
    intro first start
    split <;> omega
  rw [← hmax, ← hmin]
  unfold executePhase1 openWindow
  dsimp only
  split <;> split <;> split <;> exact ⟨_, rfl⟩

/-- The leader after the loop of `phase1_check_cb`. -/
def retryPending : LeaderState :=
  (idsFromTo s.p1info.firstToCheck s.p1info.lastToCheck).foldl (retryInstance cfg) s.initPrepares

/-- Few instances are left of the window, and `phase1_check_cb` opens new ones. -/
def WindowLow : Prop :=
  s.p1info.pendingCount + s.p1info.readyCount < cfg.proposerPreexecWinSize / 2

theorem phase1CheckCb_eq :
    ∃ sent, phase1CheckCb cfg s = { retryPending cfg s with sent := sent } ∧
        ¬ WindowLow cfg (retryPending cfg s) ∨
      phase1CheckCb cfg s = { executePhase1 cfg (retryPending cfg s) with sent := sent } ∧
        WindowLow cfg (retryPending cfg s) := by
  unfold phase1CheckCb
  dsimp only
  split
  · next hlow =>
      split
      · exact ⟨_, .inr ⟨rfl, hlow⟩⟩
      · exact ⟨_, .inr ⟨rfl, hlow⟩⟩
  · next hlow =>
      split
      · exact ⟨_, .inl ⟨rfl, hlow⟩⟩
      · exact ⟨_, .inl ⟨rfl, hlow⟩⟩

/-- `ready_count` and `pending_count` when a finished instance is put back. -/
def Phase1Info.putBack (info : Phase1Info) (status : StatusFlag) : Phase1Info :=
  if status = .p1Finished then
    { info with readyCount := info.readyCount - 1, pendingCount := info.pendingCount + 1 }
  else info

inductive Phase2Check : LeaderState → Prop where
  | progress (moved : s.currentIid ≠ s.p2CurrentIid) :
      Phase2Check { s with p2CurrentIid := s.currentIid }
  | restarted (stuck : s.currentIid = s.p2CurrentIid)
      (own : (s.slot cfg s.currentIid).iid = s.currentIid)
      (msgSize : Int) (prepares : PrepareBatchMsg) (sent : List PaxosMsg) :
      Phase2Check
        { s.setSlot cfg s.currentIid ((s.slot cfg s.currentIid).restarted cfg) with
          p1info := s.p1info.putBack (s.slot cfg s.currentIid).status
          p2CurrentIid := s.currentIid
          msgSize := msgSize
          prepares := prepares
          sent := sent }

theorem phase2CheckCb_check {t : LeaderState} (run : phase2CheckCb cfg s = some t) :
    Phase2Check cfg s t := by
  unfold phase2CheckCb at run
  split at run
  · next stuck =>
      dsimp only at run
      split at run
      · cases run
      · next own =>
          obtain ⟨msgSize, prepares, sent, heq⟩ := addPrepareToBuffer_eq
            { s.initPrepares.setSlot cfg s.currentIid ((s.slot cfg s.currentIid).restarted cfg) with
              p1info := s.p1info.putBack (s.slot cfg s.currentIid).status }
            (s.slot cfg s.currentIid).iid (cfg.ballotNext (s.slot cfg s.currentIid).ballot)
          have ht := (Option.some.inj run).symm.trans
            (congrArg (fun u => { u.flushPrepares with p2CurrentIid := s.currentIid }) heq)
          rw [ht]
          exact .restarted stuck (Decidable.not_not.mp own) msgSize prepares _
  · next moved =>
      obtain rfl := Option.some.inj run
      exact .progress moved

/-- The assertion fails when nothing was delivered and another instance is in the slot. -/
theorem phase2CheckCb_eq_none :
    phase2CheckCb cfg s = none ↔
      s.currentIid = s.p2CurrentIid ∧ (s.slot cfg s.currentIid).iid ≠ s.currentIid := by
  unfold phase2CheckCb
  split
  · next stuck =>
      dsimp only
      split
      · next other => exact ⟨fun _ => ⟨stuck, other⟩, fun _ => rfl⟩
      · next own => exact ⟨nofun, fun h => absurd h.2 own⟩
  · next moved => exact ⟨nofun, fun h => absurd h.1 moved⟩

/-- The counters when an instance becomes ready. -/
def Phase1Info.reach (info : Phase1Info) (iid : Int) : Phase1Info where
  pendingCount := info.pendingCount - 1
  readyCount := info.readyCount + 1
  highestReady := max info.highestReady iid
  firstToCheck := min info.firstToCheck iid
  lastToCheck := max info.lastToCheck iid

theorem handlePromise_p1info (prom : PromiseMsg) (acceptorId : Int) :
    (handlePromise cfg s prom acceptorId).1.p1info =
      if (handlePromise cfg s prom acceptorId).2 = 1 then s.p1info.reach prom.iid
      else s.p1info := by
  have hmax : ∀ old new : Int, (if old < new then new else old) = max old new := by
    intro old new
    split <;> omega
  have hmin : ∀ old new : Int, (if old > new then new else old) = min old new := by
    intro old new
    split <;> omega
  unfold handlePromise Phase1Info.reach
  dsimp only
  split
  · rfl
  · next own =>
      have own : (s.slot cfg prom.iid).iid = prom.iid := by simpa using own
      split
      · rfl
      · split
        · rfl
        · split
          · rfl
          · split
            · rfl
            · simp only [hmax, hmin, own, if_pos]

end Outcomes
end LibFastPaxos
