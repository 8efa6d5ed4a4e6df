import LibFastPaxos.LeaderWindow

/-!
The assertion of `phase2_check_cb`. It looks for the record of `current_iid`,
which is open unless everything the leader has opened is delivered; in that case
the next phase-1 check opens it, and one runs before every other phase-2 check.
-/

namespace LibFastPaxos

open Transition

/-- Phase 1 of the instance has reached its quorum in the run. -/
def Completed (cfg : Config) (past : List (LeaderState × LeaderEvent)) (iid : Int) : Prop :=
  ∃ s batch, (s, LeaderEvent.promises batch) ∈ past ∧ iid ∈ reached cfg s batch

/-- A phase-1 check has run since the last phase-2 check, if there was one. -/
def CheckedSince : List (LeaderState × LeaderEvent) → Prop
  | [] => True
  | (_, .phase2Timer) :: _ => False
  | (_, .phase1Timer) :: _ => True
  | (_, .promises _) :: older | (_, .deliver _) :: older => CheckedSince older

/-- Instances are delivered in order after their phase 1, and a phase-1 check runs between
two phase-2 checks. -/
def ChecksInTurn (cfg : Config) (r : WithPast LeaderState LeaderEvent) : LeaderEvent → Prop
  | .deliver iid => iid = r.state.currentIid ∧ Completed cfg r.past iid
  | .phase2Timer => CheckedSince r.past
  | .promises _ | .phase1Timer => True

/-- What such a run keeps true. -/
structure RestartsSafely (cfg : Config) (r : WithPast LeaderState LeaderEvent) : Prop where
  window : WindowExact cfg r.state
  ready : r.state.currentIid ≤ r.state.p1info.highestReady + 1
  completed : ∀ iid, Completed cfg r.past iid → iid ≤ r.state.p1info.highestReady
  p2_le : r.state.p2CurrentIid ≤ r.state.currentIid
  checked : CheckedSince r.past → r.state.currentIid = r.state.p2CurrentIid →
    r.state.currentIid ≤ r.state.p1info.lastToCheck

section Preservation

variable {cfg : Config} {r r' : WithPast LeaderState LeaderEvent}

theorem completed_cons {past : List (LeaderState × LeaderEvent)} {s : LeaderState}
    {event : LeaderEvent} {iid : Int} (h : Completed cfg ((s, event) :: past) iid) :
    Completed cfg past iid ∨ ∃ batch, event = .promises batch ∧ iid ∈ reached cfg s batch := by
  obtain ⟨s', batch, hmem, hiid⟩ := h
  cases List.mem_cons.mp hmem with
  | inl heq =>
      obtain ⟨rfl, rfl⟩ := Prod.mk.inj heq
      exact .inr ⟨batch, rfl, hiid⟩
  | inr hold => exact .inl ⟨s', batch, hold, hiid⟩

theorem RestartsSafely.promises (h : RestartsSafely cfg r) {batch : PromiseBatchMsg}
    (state : r'.state = leaderHandlePromiseMsg cfg r.state batch)
    (past : r'.past = (r.state, .promises batch) :: r.past) : RestartsSafely cfg r' := by
  obtain ⟨window, frame, hreached⟩ := h.window.leaderHandlePromiseMsg batch
  rw [← state] at window frame hreached
  refine ⟨window, ?_, ?_, ?_, ?_⟩
  · have := h.ready
    have := frame.highestReady
    rw [frame.current]
    omega
  · intro iid hiid
    rw [past] at hiid
    cases completed_cons hiid with
    | inl hold => exact (h.completed iid hold).trans frame.highestReady
    | inr hnew =>
        obtain ⟨batch', hevent, hiid⟩ := hnew
        cases hevent
        exact hreached iid hiid
  · rw [frame.current, frame.p2Current]
    exact h.p2_le
  · rw [past, frame.current, frame.p2Current, frame.lastToCheck]
    exact h.checked

/-- An event without promises completes nothing. -/
theorem completed_of_past {event : LeaderEvent} (noBatch : ∀ batch, event ≠ .promises batch)
    (past : r'.past = (r.state, event) :: r.past) {iid : Int} (h : Completed cfg r'.past iid) :
    Completed cfg r.past iid := by
  rw [past] at h
  refine (completed_cons h).resolve_right fun ⟨batch, hevent, _⟩ => ?_
  exact noBatch batch hevent

/-- With nothing left to deliver the check opens the instance after the last one. -/
theorem RestartsSafely.phase1Timer (h : RestartsSafely cfg r)
    (win : 2 ≤ cfg.proposerPreexecWinSize)
    (ring : cfg.proposerPreexecWinSize + cfg.proposerPreexecWinSize / 2 ≤
      cfg.proposerArraySize.size)
    (state : r'.state = phase1CheckCb cfg r.state)
    (past : r'.past = (r.state, .phase1Timer) :: r.past) : RestartsSafely cfg r' := by
  obtain ⟨window, hcurrent, hp2, hready, hgrows, hopens⟩ := h.window.phase1CheckCb win ring
  rw [← state] at window hcurrent hp2 hready hgrows hopens
  have hle := h.ready
  refine ⟨window, ?_, ?_, ?_, ?_⟩
  · rw [hcurrent, hready]
    exact hle
  · intro iid hiid
    rw [hready]
    exact h.completed iid (completed_of_past (fun _ heq => by cases heq) past hiid)
  · rw [hcurrent, hp2]
    exact h.p2_le
  · intro _ _
    rw [hcurrent]
    by_cases hopen : r.state.currentIid ≤ r.state.p1info.lastToCheck
    · omega
    · have := hopens (by omega)
      omega

theorem RestartsSafely.phase2Timer (h : RestartsSafely cfg r)
    (state : phase2CheckCb cfg r.state = some r'.state)
    (past : r'.past = (r.state, .phase2Timer) :: r.past) : RestartsSafely cfg r' := by
  obtain ⟨window, hcurrent, hp2, hready⟩ := h.window.phase2CheckCb state
  refine ⟨window, ?_, ?_, ?_, ?_⟩
  · rw [hcurrent, hready]
    exact h.ready
  · intro iid hiid
    rw [hready]
    exact h.completed iid (completed_of_past (fun _ heq => by cases heq) past hiid)
  · rw [hcurrent, hp2]
  · intro hchecked
    rw [past] at hchecked
    exact hchecked.elim

theorem RestartsSafely.deliver (h : RestartsSafely cfg r) {iid : Int}
    (inOrder : iid = r.state.currentIid) (completed : Completed cfg r.past iid)
    (state : r'.state = leaderDeliverValue r.state iid)
    (past : r'.past = (r.state, .deliver iid) :: r.past) : RestartsSafely cfg r' := by
  have hready := h.completed iid completed
  have hhigh := h.window.ready_high
  have hp2 := h.p2_le
  have window := h.window.leaderDeliverValue inOrder (hready.trans hhigh)
  rw [← state] at window
  have hcurrent : r'.state.currentIid = iid + 1 := by rw [state]; rfl
  have hready' : r'.state.p1info.highestReady = r.state.p1info.highestReady := by rw [state]; rfl
  have hp2' : r'.state.p2CurrentIid = r.state.p2CurrentIid := by rw [state]; rfl
  refine ⟨window, by omega, ?_, by omega, ?_⟩
  · intro j hj
    rw [hready']
    exact h.completed j (completed_of_past (fun _ heq => by cases heq) past hj)
  · -- something was delivered since the last phase-2 check
    intro _ stuck
    omega

end Preservation

theorem leader_restartsSafely {cfg : Config} (win : 2 ≤ cfg.proposerPreexecWinSize)
    (ring : cfg.proposerPreexecWinSize + cfg.proposerPreexecWinSize / 2 ≤
      cfg.proposerArraySize.size) {propId : Int} {r : WithPast LeaderState LeaderEvent}
    (h : Reachable (leaderSystem cfg propId).withPast (ChecksInTurn cfg) r) :
    RestartsSafely cfg r := by
  refine Reachable.invariant ?_ ?_ h
  · intro r ⟨start, past⟩
    have start : r.state = leaderInit cfg propId := start
    obtain ⟨window, hcurrent, hp2, hready, hlast⟩ := leaderInit_window win ring propId
    rw [← start] at window hcurrent hp2 hready hlast
    refine ⟨window, by omega, ?_, by omega, fun _ _ => by omega⟩
    intro iid ⟨s, batch, hmem, _⟩
    rw [past] at hmem
    cases hmem
  · intro r event r' _ inv inTurn ⟨move, past⟩
    cases event with
    | promises batch => exact inv.promises move.2 past
    | phase1Timer => exact inv.phase1Timer win ring move past
    | phase2Timer => exact inv.phase2Timer move past
    | deliver iid => exact inv.deliver inTurn.1 inTurn.2 move past

/-- Whenever a phase-2 check may run its assertion holds. -/
theorem phase2_check_never_aborts {cfg : Config} (win : 2 ≤ cfg.proposerPreexecWinSize)
    (ring : cfg.proposerPreexecWinSize + cfg.proposerPreexecWinSize / 2 ≤
      cfg.proposerArraySize.size) {propId : Int} {r : WithPast LeaderState LeaderEvent}
    (h : Reachable (leaderSystem cfg propId).withPast (ChecksInTurn cfg) r)
    (due : CheckedSince r.past) :
    (r.state.currentIid = r.state.p2CurrentIid →
        (r.state.slot cfg r.state.currentIid).iid = r.state.currentIid) ∧
      phase2CheckCb cfg r.state ≠ none := by
  have inv := leader_restartsSafely win ring h
  have hheld : r.state.currentIid = r.state.p2CurrentIid →
      (r.state.slot cfg r.state.currentIid).iid = r.state.currentIid :=
    fun stuck => inv.window.window.own _ (Int.le_refl _) (inv.checked due stuck)
  refine ⟨hheld, ?_⟩
  intro aborts
  obtain ⟨stuck, other⟩ := (phase2CheckCb_eq_none cfg r.state).mp aborts
  exact other (hheld stuck)

/-- A phase-2 check without progress, then a phase-1 check. -/
theorem retried_reachable {cfg : Config}
    (restarts : (phase2CheckCb cfg (leaderInit cfg 0)).isSome = true) :
    ∃ past, Reachable (leaderSystem cfg 0).withPast (ChecksInTurn cfg)
        ⟨phase1CheckCb cfg ((phase2CheckCb cfg (leaderInit cfg 0)).getD (leaderInit cfg 0)),
          past⟩ ∧
      CheckedSince past := by
  obtain ⟨t, ht⟩ := Option.isSome_iff_exists.mp restarts
  have start : Reachable (leaderSystem cfg 0).withPast (ChecksInTurn cfg)
      ⟨leaderInit cfg 0, []⟩ := .init ⟨rfl, rfl⟩
  have stuck : Reachable (leaderSystem cfg 0).withPast (ChecksInTurn cfg)
      ⟨t, [(leaderInit cfg 0, .phase2Timer)]⟩ :=
    .step (a := .phase2Timer) start trivial ⟨ht, rfl⟩
  have checked : Reachable (leaderSystem cfg 0).withPast (ChecksInTurn cfg)
      ⟨phase1CheckCb cfg t, [(t, .phase1Timer), (leaderInit cfg 0, .phase2Timer)]⟩ :=
    .step (a := .phase1Timer) stuck trivial ⟨rfl, rfl⟩
  rw [ht]
  exact ⟨_, checked, trivial⟩

theorem phase2_check_never_aborts_retried : phase2CheckCb .shipped retriedLeader ≠ none := by
  have restarts : (phase2CheckCb .shipped (leaderInit .shipped 0)).isSome = true := by
    decide +kernel
  obtain ⟨past, reached, due⟩ := retried_reachable restarts
  have safe := @phase2_check_never_aborts .shipped (by decide) (by decide) 0 _ reached due
  dsimp only at safe
  exact safe.2

end LibFastPaxos
