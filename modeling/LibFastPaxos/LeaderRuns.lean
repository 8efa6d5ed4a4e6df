import LibFastPaxos.LeaderPromises
import LibFastPaxos.Lib.Transition

/-!
Runs of the leader: promise batches, the two timers and deliveries in any order.
Between two events no record is `p1_ready`, since `execute_phase2` walks over
every instance that a batch of ascending ids can have made ready.
-/

namespace LibFastPaxos

open Transition

/-- The batches acceptors produce: ids ascend, and the acceptor is one of the N. -/
structure PromiseBatchMsg.WellFormed (cfg : Config) (batch : PromiseBatchMsg) : Prop where
  count_eq : batch.count = batch.data.length
  acceptor_nonneg : 0 ≤ batch.acceptorId
  acceptor_lt : batch.acceptorId < cfg.nOfAcceptors
  ids_nonneg : ∀ p ∈ batch.data, 0 ≤ p.iid
  ascending : (batch.data.map PromiseMsg.iid).Pairwise (· < ·)

inductive LeaderEvent where
  | promises (batch : PromiseBatchMsg)
  | phase1Timer
  | phase2Timer
  | deliver (iid : Int)

def leaderSystem (cfg : Config) (propId : Int) : System LeaderState LeaderEvent where
  init := fun s => s = leaderInit cfg propId
  step := fun s event t => match event with
    | .promises batch => batch.WellFormed cfg ∧ t = leaderHandlePromiseMsg cfg s batch
    | .phase1Timer => t = phase1CheckCb cfg s
    | .phase2Timer => phase2CheckCb cfg s = some t
    | .deliver iid => t = leaderDeliverValue s iid

/-- No record is `p1_ready`. -/
def NoneReady (s : LeaderState) : Prop := ∀ k, (s.proposerArray k).status ≠ .p1Ready

section Slots

variable {cfg : Config} {s : LeaderState}

theorem proposerArray_setSlot (iid : Int) (r : ProposerRecord) (k : Nat) :
    (s.setSlot cfg iid r).proposerArray k =
      if k = cfg.proposerArraySize.index iid then r else s.proposerArray k := by
  simp [LeaderState.setSlot, Function.update_apply]

@[simp] theorem addPrepareToBuffer_proposerArray (iid ballot : Int) :
    (addPrepareToBuffer s iid ballot).proposerArray = s.proposerArray := by
  simp only [addPrepareToBuffer]
  split <;> rfl

theorem NoneReady.setSlot (h : NoneReady s) (iid : Int) {r : ProposerRecord}
    (hr : r.status ≠ .p1Ready) : NoneReady (s.setSlot cfg iid r) := by
  intro k
  rw [proposerArray_setSlot]
  split
  · exact hr
  · exact h k

theorem NoneReady.congr {t : LeaderState} (h : NoneReady s)
    (arr : t.proposerArray = s.proposerArray) : NoneReady t := by
  intro k
  rw [arr]
  exact h k

theorem NoneReady.openInstance (cfg : Config) (h : NoneReady s) (i : Int) :
    NoneReady (openInstance cfg s i) := by
  simp only [LibFastPaxos.openInstance]
  split
  · refine NoneReady.congr (s := s.setSlot cfg i _) (h.setSlot i ?_)
      (addPrepareToBuffer_proposerArray _ _)
    simp [ProposerRecord.clearPromises]
  · exact h

theorem NoneReady.retryInstance (cfg : Config) (h : NoneReady s) (i : Int) :
    NoneReady (retryInstance cfg s i) := by
  simp only [LibFastPaxos.retryInstance]
  split
  · next hpending =>
      refine NoneReady.congr (s := s.setSlot cfg i _) (h.setSlot i ?_)
        (addPrepareToBuffer_proposerArray _ _)
      simp [ProposerRecord.clearPromises, hpending.2]
  · exact h

theorem NoneReady.foldl {step : LeaderState → Int → LeaderState}
    (preserved : ∀ s i, NoneReady s → NoneReady (step s i)) (h : NoneReady s) (ids : List Int) :
    NoneReady (ids.foldl step s) := by
  induction ids generalizing s with
  | nil => exact h
  | cons i ids ih => exact ih (preserved s i h)

theorem NoneReady.executePhase1 (h : NoneReady s) : NoneReady (executePhase1 cfg s) := by
  have hloop := h.foldl (fun _ i h => h.openInstance cfg i)
    (idsFromTo (s.p1info.highestReady + 1)
      (s.p1info.highestReady + 1 + cfg.proposerPreexecWinSize))
  unfold LibFastPaxos.executePhase1
  dsimp only
  split <;> split <;> split <;> exact hloop

theorem NoneReady.phase1CheckCb (h : NoneReady s) : NoneReady (phase1CheckCb cfg s) := by
  have hloop := NoneReady.foldl (fun _ i h => h.retryInstance cfg i)
    (s := s.initPrepares) h (idsFromTo s.p1info.firstToCheck s.p1info.lastToCheck)
  unfold LibFastPaxos.phase1CheckCb
  dsimp only
  split
  · split
    · exact hloop.executePhase1
    · exact hloop.executePhase1
  · split <;> exact hloop

theorem NoneReady.phase2CheckCb (h : NoneReady s) {t : LeaderState}
    (run : phase2CheckCb cfg s = some t) : NoneReady t := by
  unfold LibFastPaxos.phase2CheckCb at run
  split at run
  · dsimp only at run
    split at run
    · cases run
    · cases run
      refine NoneReady.congr (s := s.setSlot cfg s.currentIid _) (h.setSlot s.currentIid ?_)
        (addPrepareToBuffer_proposerArray _ _)
      have hslot := h (cfg.proposerArraySize.index s.currentIid)
      simp only [ProposerRecord.clearPromises]
      split
      · simp
      · exact hslot
  · cases run
    exact h

theorem noneReady_leaderInit (cfg : Config) (propId : Int) : NoneReady (leaderInit cfg propId) := by
  apply NoneReady.executePhase1
  intro k
  simp [LeaderState.initPrepares, leaderStatics]

end Slots

/-! ### The instances that reach a quorum in one batch -/

/-- The ids for which `handle_promise` returns 1 while the promises are stored. -/
def reachedQuorum (cfg : Config) (acceptorId : Int) : LeaderState → List PromiseMsg → List Int
  | _, [] => []
  | s, prom :: proms =>
      let (t, ret) := handlePromise cfg s prom acceptorId
      if ret = 1 then prom.iid :: reachedQuorum cfg acceptorId t proms
      else reachedQuorum cfg acceptorId t proms

/-- The records that are `p1_ready` are those of these instances. -/
structure ReadyExactly (cfg : Config) (s : LeaderState) (ids : List Int) : Prop where
  ready_iff : ∀ k, (s.proposerArray k).status = .p1Ready ↔
    ∃ i ∈ ids, cfg.proposerArraySize.index i = k
  iid_eq : ∀ i ∈ ids, (s.slot cfg i).iid = i

section Reached

variable {cfg : Config} {s : LeaderState} {acceptorId : Int}

theorem NoneReady.readyExactly (h : NoneReady s) : ReadyExactly cfg s [] := by
  constructor
  · intro k
    simp [h k]
  · intro i hi
    cases hi

theorem ReadyExactly.ready {ids : List Int} (h : ReadyExactly cfg s ids) {i : Int}
    (hi : i ∈ ids) : (s.slot cfg i).status = .p1Ready :=
  (h.ready_iff _).mpr ⟨i, hi, rfl⟩

theorem ReadyExactly.congr {ids : List Int} (h : ReadyExactly cfg s ids) {t : LeaderState}
    (arr : t.proposerArray = s.proposerArray) : ReadyExactly cfg t ids := by
  constructor
  · intro k
    rw [arr]
    exact h.ready_iff k
  · intro i hi
    rw [LeaderState.slot, arr]
    exact h.iid_eq i hi

/-- A slot that was not ready gets a record that is not ready either. -/
theorem ReadyExactly.setSlot {ids : List Int} (h : ReadyExactly cfg s ids) {i : Int}
    (apart : ∀ j ∈ ids, cfg.proposerArraySize.index j ≠ cfg.proposerArraySize.index i)
    {r : ProposerRecord} (notReady : r.status ≠ .p1Ready) :
    ReadyExactly cfg (s.setSlot cfg i r) ids := by
  constructor
  · intro k
    rw [proposerArray_setSlot]
    split
    · next hk =>
        subst hk
        exact ⟨fun hready => absurd hready notReady, fun ⟨j, hj, heq⟩ => absurd heq (apart j hj)⟩
    · exact h.ready_iff k
  · intro j hj
    rw [slot_setSlot_of_ne cfg s i _ (apart j hj)]
    exact h.iid_eq j hj

/-- The record of one more instance becomes ready. -/
theorem ReadyExactly.setReady {ids : List Int} (h : ReadyExactly cfg s ids) {i : Int}
    (apart : ∀ j ∈ ids, cfg.proposerArraySize.index j ≠ cfg.proposerArraySize.index i)
    {r : ProposerRecord} (ready : r.status = .p1Ready) (iid : r.iid = i) :
    ReadyExactly cfg (s.setSlot cfg i r) (ids ++ [i]) := by
  constructor
  · intro k
    rw [proposerArray_setSlot]
    split
    · next hk =>
        subst hk
        exact ⟨fun _ => ⟨i, by simp, rfl⟩, fun _ => ready⟩
    · next hk =>
        rw [h.ready_iff k]
        simp only [List.mem_append, List.mem_singleton]
        constructor
        · intro ⟨j, hj, heq⟩
          exact ⟨j, .inl hj, heq⟩
        · intro ⟨j, hj, heq⟩
          cases hj with
          | inl hold => exact ⟨j, hold, heq⟩
          | inr hnew =>
              subst hnew
              exact absurd heq.symm hk
  · intro j hj
    cases List.mem_append.mp hj with
    | inl hold =>
        rw [slot_setSlot_of_ne cfg s i _ (apart j hold)]
        exact h.iid_eq j hold
    | inr hnew =>
        obtain rfl := List.mem_singleton.mp hnew
        rw [slot_setSlot]
        exact iid

theorem ReadyExactly.handlePromise {ids : List Int} (h : ReadyExactly cfg s ids)
    (acceptorId : Int) (prom : PromiseMsg) :
    ReadyExactly cfg (handlePromise cfg s prom acceptorId).1
      (if (handlePromise cfg s prom acceptorId).2 = 1 then ids ++ [prom.iid] else ids) := by
  have apart : (s.slot cfg prom.iid).Awaits prom acceptorId →
      ∀ i ∈ ids, cfg.proposerArraySize.index i ≠ cfg.proposerArraySize.index prom.iid := by
    intro awaited i hi heq
    have hready := h.ready hi
    rw [slot_congr cfg s prom.iid heq, awaited.pending] at hready
    cases hready
  have outcome := handlePromise_outcome cfg s prom acceptorId
  generalize LibFastPaxos.handlePromise cfg s prom acceptorId = res at outcome ⊢
  cases outcome with
  | ignored _ => exact h
  | stored awaited short =>
      refine h.setSlot (apart awaited) ?_
      change (s.slot cfg prom.iid).status ≠ .p1Ready
      rw [awaited.pending]
      decide
  | reached awaited quorum p1info =>
      have hready := h.setReady (apart awaited)
        (r := { (s.slot cfg prom.iid).store prom acceptorId with status := .p1Ready }) rfl
        awaited.iid_eq
      exact hready.congr rfl

theorem readyExactly_stored {ids : List Int} (h : ReadyExactly cfg s ids)
    (proms : List PromiseMsg) :
    ReadyExactly cfg
      (proms.foldl (fun s prom => (handlePromise cfg s prom acceptorId).1) s)
      (ids ++ reachedQuorum cfg acceptorId s proms) := by
  induction proms generalizing s ids with
  | nil => simpa [reachedQuorum] using h
  | cons prom proms ih =>
      have hstep := ih (h.handlePromise acceptorId prom)
      rw [List.foldl_cons, reachedQuorum]
      dsimp only
      split
      · next hret => simpa [hret] using hstep
      · next hret => simpa [hret] using hstep

theorem reachedQuorum_sublist (s : LeaderState) (proms : List PromiseMsg) :
    (reachedQuorum cfg acceptorId s proms).Sublist (proms.map PromiseMsg.iid) := by
  induction proms generalizing s with
  | nil => exact List.Sublist.refl []
  | cons prom proms ih =>
      rw [reachedQuorum]
      dsimp only
      split
      · exact (ih _).cons_cons prom.iid
      · exact (ih _).cons prom.iid

end Reached
end LibFastPaxos
