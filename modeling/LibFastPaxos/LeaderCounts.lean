import LibFastPaxos.LeaderOutcomes
import LibFastPaxos.LeaderPhase2
import Mathlib.Data.Finset.Card
import Mathlib.Data.Finset.Range

/-!
The promise counts of the leader. Whatever opens a record or starts it again
clears its promises, and a promise is stored for the instance and the ballot of
the record only, once for each acceptor, while the record is `p1_pending`.
-/

namespace LibFastPaxos

open Transition

/-- The number of acceptors whose promise is stored. -/
def ProposerRecord.answered (cfg : Config) (r : ProposerRecord) : Nat :=
  ((Finset.range cfg.nOfAcceptors).filter fun j => (r.promises j).iid ≠ -1).card

/-- What the entry of an acceptor can be: cleared, or one promise that was heard for
the instance and the ballot of the record. -/
def ProposerRecord.EntryHeard (heard : Nat → PromiseMsg → Prop) (r : ProposerRecord) (j : Nat) :
    Prop :=
  r.promises j = clearedPromise ∨
    ∃ p, heard j p ∧ p.iid = r.iid ∧ p.ballot = r.ballot ∧ r.promises j = clearedPromise.store p

structure ProposerRecord.Exact (cfg : Config) (heard : Nat → PromiseMsg → Prop)
    (r : ProposerRecord) : Prop where
  count_eq : r.promiseCount = r.answered cfg
  entries : ∀ j, r.EntryHeard heard j
  pending : r.status = .p1Pending → r.promiseCount < cfg.quorum
  full : r.status = .p1Ready ∨ r.status = .p1Finished → r.promiseCount = cfg.quorum

/-- Every record that was opened is exact. -/
def RecordsExact (cfg : Config) (heard : Nat → PromiseMsg → Prop) (s : LeaderState) : Prop :=
  ∀ k, (s.proposerArray k).status ≠ .p1New → (s.proposerArray k).Exact cfg heard

section Records

variable {cfg : Config} {heard heard' : Nat → PromiseMsg → Prop} {r : ProposerRecord}

theorem ProposerRecord.Exact.mono (h : r.Exact cfg heard) (hears : ∀ j p, heard j p → heard' j p) :
    r.Exact cfg heard' := by
  refine ⟨h.count_eq, fun j => ?_, h.pending, h.full⟩
  refine (h.entries j).imp_right fun ⟨p, hp, rest⟩ => ?_
  exact ⟨p, hears j p hp, rest⟩

theorem answered_clearPromises : r.clearPromises.answered cfg = 0 := by
  have hnone : (Finset.range cfg.nOfAcceptors).filter
      (fun j => (r.clearPromises.promises j).iid ≠ -1) = ∅ := by
    apply Finset.filter_eq_empty_iff.mpr
    intro j _ hj
    exact hj rfl
  rw [ProposerRecord.answered, hnone, Finset.card_empty]

theorem ProposerRecord.Exact.cleared (notFull : r.status = .p1Pending) :
    r.clearPromises.Exact cfg heard := by
  have hstatus : r.clearPromises.status = .p1Pending := notFull
  refine ⟨?_, fun _ => .inl rfl, fun _ => cfg.quorum_pos, ?_⟩
  · rw [answered_clearPromises]
    rfl
  · intro h
    rw [hstatus] at h
    cases h with
    | inl h | inr h => cases h

/-- A promise is counted when its acceptor had none. -/
theorem answered_store {prom : PromiseMsg} {acceptorId : Int}
    (lt : acceptorId.toNat < cfg.nOfAcceptors)
    (missing : (r.promises acceptorId.toNat).iid = -1) (valid : prom.iid ≠ -1) :
    (r.store prom acceptorId).answered cfg = r.answered cfg + 1 := by
  have hinsert : (Finset.range cfg.nOfAcceptors).filter
        (fun j => ((r.store prom acceptorId).promises j).iid ≠ -1) =
      insert acceptorId.toNat
        ((Finset.range cfg.nOfAcceptors).filter fun j => (r.promises j).iid ≠ -1) := by
    ext j
    rw [Finset.mem_insert, Finset.mem_filter, Finset.mem_filter, Finset.mem_range]
    by_cases hj : j = acceptorId.toNat
    · subst hj
      simp [ProposerRecord.store, PromiseInfo.store, valid, lt]
    · simp [ProposerRecord.store, hj]
  have hnew : acceptorId.toNat ∉
      (Finset.range cfg.nOfAcceptors).filter fun j => (r.promises j).iid ≠ -1 := by
    simp [missing]
  rw [ProposerRecord.answered, hinsert, Finset.card_insert_of_notMem hnew]
  rfl

theorem ProposerRecord.EntryHeard.cleared_of_missing {j : Nat} (h : r.EntryHeard heard j)
    (nonneg : 0 ≤ r.iid) (missing : (r.promises j).iid = -1) : r.promises j = clearedPromise := by
  refine h.resolve_right fun ⟨p, _, hiid, _, hstored⟩ => ?_
  rw [hstored] at missing
  have : p.iid = -1 := missing
  omega

/-- Storing a promise that the record waits for; the status follows the count. -/
theorem ProposerRecord.Exact.store (h : r.Exact cfg heard) {prom : PromiseMsg} {acceptorId : Int}
    (awaited : r.Awaits prom acceptorId) (hears : heard acceptorId.toNat prom)
    (nonneg : 0 ≤ prom.iid) (lt : acceptorId.toNat < cfg.nOfAcceptors) {status : StatusFlag}
    (follows : status = .p1Pending ∧ r.promiseCount + 1 < cfg.quorum ∨
      status = .p1Ready ∧ cfg.quorum ≤ r.promiseCount + 1) :
    ProposerRecord.Exact cfg heard { r.store prom acceptorId with status := status } := by
  have hshort := h.pending awaited.pending
  have hiid := awaited.iid_eq
  refine ⟨?_, ?_, ?_, ?_⟩
  · have hcount := answered_store lt awaited.missing (by omega : prom.iid ≠ -1)
    have hsame : ProposerRecord.answered cfg
        { r.store prom acceptorId with status := status } =
          (r.store prom acceptorId).answered cfg := rfl
    rw [hsame, hcount]
    have := h.count_eq
    change r.promiseCount + 1 = _
    omega
  · intro j
    by_cases hj : j = acceptorId.toNat
    · subst hj
      have hcleared := (h.entries acceptorId.toNat).cleared_of_missing (by omega) awaited.missing
      refine .inr ⟨prom, hears, hiid.symm, awaited.ballot_eq.symm, ?_⟩
      rw [← hcleared]
      exact Function.update_self _ _ _
    · have hsame : (r.store prom acceptorId).promises j = r.promises j :=
        Function.update_of_ne hj _ _
      have hold := h.entries j
      unfold ProposerRecord.EntryHeard at hold ⊢
      rw [← hsame] at hold
      exact hold
  · intro hpending
    cases follows with
    | inl hstored => exact hstored.2
    | inr hready =>
        have hpending : status = .p1Pending := hpending
        rw [hready.1] at hpending
        cases hpending
  · intro hfull
    cases follows with
    | inl hstored =>
        have hfull : status = .p1Ready ∨ status = .p1Finished := hfull
        rw [hstored.1] at hfull
        cases hfull with
        | inl h | inr h => cases h
    | inr hready =>
        have := hready.2
        change r.promiseCount + 1 = cfg.quorum
        omega

/-- `execute_phase2` finishes a ready record. -/
theorem ProposerRecord.Exact.finish (h : r.Exact cfg heard) (ready : r.status = .p1Ready) :
    ProposerRecord.Exact cfg heard { r with status := .p1Finished } :=
  ⟨h.count_eq, h.entries, nofun, fun _ => h.full (.inl ready)⟩

end Records

section Preservation

variable {cfg : Config} {heard heard' : Nat → PromiseMsg → Prop} {s t : LeaderState}

theorem RecordsExact.mono (h : RecordsExact cfg heard s)
    (hears : ∀ j p, heard j p → heard' j p) : RecordsExact cfg heard' s :=
  fun k used => (h k used).mono hears

theorem RecordsExact.congr (h : RecordsExact cfg heard s)
    (arr : t.proposerArray = s.proposerArray) : RecordsExact cfg heard t := by
  intro k
  rw [arr]
  exact h k

theorem RecordsExact.setSlot (h : RecordsExact cfg heard s) (iid : Int) {r : ProposerRecord}
    (hr : r.status ≠ .p1New → r.Exact cfg heard) :
    RecordsExact cfg heard (s.setSlot cfg iid r) := by
  intro k
  rw [proposerArray_setSlot]
  split
  · exact hr
  · exact h k

theorem RecordsExact.openInstance (h : RecordsExact cfg heard s) (i : Int) :
    RecordsExact cfg heard (openInstance cfg s i) := by
  have outcome := openInstance_outcome cfg s i
  generalize LibFastPaxos.openInstance cfg s i = u at outcome ⊢
  cases outcome with
  | held _ _ => exact h
  | opened free msgSize prepares sent =>
      refine (h.setSlot i fun _ => ?_).congr rfl
      exact ProposerRecord.Exact.cleared rfl

theorem RecordsExact.executePhase1 (h : RecordsExact cfg heard s) :
    RecordsExact cfg heard (executePhase1 cfg s) := by
  obtain ⟨sent, heq⟩ := executePhase1_eq cfg s
  have hloop : RecordsExact cfg heard (openWindow cfg s) :=
    List.foldlRecOn _ _ h fun u hu i _ => hu.openInstance i
  rw [heq]
  exact hloop.congr rfl

theorem RecordsExact.phase1CheckCb (h : RecordsExact cfg heard s) :
    RecordsExact cfg heard (phase1CheckCb cfg s) := by
  have hretry : ∀ u i, RecordsExact cfg heard u →
      RecordsExact cfg heard (retryInstance cfg u i) := by
    intro u i hu
    have outcome := retryInstance_outcome cfg u i
    generalize LibFastPaxos.retryInstance cfg u i = v at outcome ⊢
    cases outcome with
    | skipped => exact hu
    | retried own pending msgSize prepares sent =>
        refine (hu.setSlot i fun _ => ?_).congr rfl
        rw [ProposerRecord.restarted_pending cfg pending]
        exact ProposerRecord.Exact.cleared pending
  have hloop : RecordsExact cfg heard (retryPending cfg s) :=
    List.foldlRecOn _ _ (h.congr rfl) fun u hu i _ => hretry u i hu
  obtain ⟨sent, hcase⟩ := phase1CheckCb_eq cfg s
  cases hcase with
  | inl hquiet =>
      rw [hquiet.1]
      exact hloop.congr rfl
  | inr hlow =>
      rw [hlow.1]
      exact hloop.executePhase1.congr rfl

theorem RecordsExact.phase2CheckCb (h : RecordsExact cfg heard s) (none : NoneReady s)
    (run : phase2CheckCb cfg s = some t) : RecordsExact cfg heard t := by
  cases phase2CheckCb_check cfg s run with
  | progress _ => exact h.congr rfl
  | restarted _ _ msgSize prepares sent =>
      refine (h.setSlot s.currentIid fun used => ?_).congr rfl
      apply ProposerRecord.Exact.cleared
      have hready := none (cfg.proposerArraySize.index s.currentIid)
      -- whatever the status was, it is `p1_pending` now
      change (if (s.slot cfg s.currentIid).status = .p1Finished then StatusFlag.p1Pending
        else (s.slot cfg s.currentIid).status) = .p1Pending
      have hused : (if (s.slot cfg s.currentIid).status = .p1Finished then StatusFlag.p1Pending
        else (s.slot cfg s.currentIid).status) ≠ .p1New := used
      change (s.slot cfg s.currentIid).status ≠ .p1Ready at hready
      cases hstatus : (s.slot cfg s.currentIid).status with
      | p1New =>
          rw [hstatus] at hused
          exact absurd rfl hused
      | p1Pending | p1Finished => rfl
      | p1Ready => exact absurd hstatus hready

theorem RecordsExact.handlePromise (h : RecordsExact cfg heard s) {prom : PromiseMsg}
    {acceptorId : Int} (hears : heard acceptorId.toNat prom) (nonneg : 0 ≤ prom.iid)
    (lt : acceptorId.toNat < cfg.nOfAcceptors) :
    RecordsExact cfg heard (handlePromise cfg s prom acceptorId).1 := by
  have exact_of : (s.slot cfg prom.iid).Awaits prom acceptorId →
      (s.slot cfg prom.iid).Exact cfg heard := by
    intro awaited
    apply h (cfg.proposerArraySize.index prom.iid)
    change (s.slot cfg prom.iid).status ≠ .p1New
    rw [awaited.pending]
    decide
  have outcome := handlePromise_outcome cfg s prom acceptorId
  generalize LibFastPaxos.handlePromise cfg s prom acceptorId = res at outcome ⊢
  cases outcome with
  | ignored _ => exact h
  | stored awaited short =>
      refine h.setSlot prom.iid fun _ => ?_
      exact (exact_of awaited).store awaited hears nonneg lt (.inl ⟨awaited.pending, short⟩)
  | reached awaited quorum p1info =>
      refine (h.setSlot prom.iid fun _ => ?_).congr rfl
      exact (exact_of awaited).store awaited hears nonneg lt (.inr ⟨rfl, quorum⟩)

theorem RecordsExact.phase2Instance (h : RecordsExact cfg heard s) (i : Int) :
    RecordsExact cfg heard (phase2Instance cfg s i) := by
  by_cases hready : (s.slot cfg i).status = .p1Ready
  · refine RecordsExact.congr (s := finish cfg s i) (h.setSlot i fun _ => ?_)
      (phase2Instance_array hready)
    have hused : (s.slot cfg i).status ≠ .p1New := by
      rw [hready]
      decide
    exact (h (cfg.proposerArraySize.index i) hused).finish hready
  · rw [phase2Instance_of_not_ready hready]
    exact h

theorem RecordsExact.leaderHandlePromiseMsg (h : RecordsExact cfg heard s)
    {batch : PromiseBatchMsg} (wf : batch.WellFormed cfg)
    (hears : ∀ p ∈ batch.data, heard batch.acceptorId.toNat p) :
    RecordsExact cfg heard (leaderHandlePromiseMsg cfg s batch) := by
  have hlt : batch.acceptorId.toNat < cfg.nOfAcceptors := by
    have := wf.acceptor_nonneg
    have := wf.acceptor_lt
    omega
  refine leaderHandlePromiseMsg_keeps (RecordsExact cfg heard) ?_ ?_ ?_ ?_ h
  · intro u p hp hu
    have hp := List.mem_of_mem_take hp
    exact hu.handlePromise (hears p hp) (wf.ids_nonneg p hp) hlt
  · exact fun u i hu => hu.phase2Instance i
  · exact fun u hu => hu.congr rfl
  · exact fun u hu => hu.congr rfl

end Preservation

/-- A promise of this acceptor was in a batch that the leader has handled. -/
def Heard (past : List (LeaderState × LeaderEvent)) (j : Nat) (p : PromiseMsg) : Prop :=
  ∃ s batch, (s, LeaderEvent.promises batch) ∈ past ∧ batch.acceptorId = j ∧ p ∈ batch.data

/-- The records are exact for what the run has heard. -/
def ExactSoFar (cfg : Config) (r : WithPast LeaderState LeaderEvent) : Prop :=
  RecordsExact cfg (Heard r.past) r.state

theorem records_exact {cfg : Config} {propId : Int}
    {guard : WithPast LeaderState LeaderEvent → LeaderEvent → Prop}
    {r : WithPast LeaderState LeaderEvent}
    (h : Reachable (leaderSystem cfg propId).withPast guard r) : ExactSoFar cfg r := by
  refine Reachable.invariant ?_ ?_ h
  · intro r ⟨start, _⟩
    rw [ExactSoFar, start]
    apply RecordsExact.executePhase1
    intro k used
    exact absurd rfl used
  · intro r event r' before inv _ ⟨move, past⟩
    have hstate : Reachable (leaderSystem cfg propId) anyStep r.state :=
      before.state fun _ _ _ => trivial
    have none : NoneReady r.state := leader_noneReady hstate
    have hears : ∀ j p, Heard r.past j p → Heard r'.past j p := by
      intro j p ⟨s, batch, hmem, rest⟩
      rw [past]
      exact ⟨s, batch, List.mem_cons_of_mem _ hmem, rest⟩
    have inv : RecordsExact cfg (Heard r'.past) r.state := RecordsExact.mono inv hears
    simp only [ExactSoFar]
    cases event with
    | promises batch =>
        obtain ⟨wf, ht⟩ := move
        rw [ht]
        refine inv.leaderHandlePromiseMsg wf fun p hp => ?_
        have hid := wf.acceptor_nonneg
        rw [past]
        exact ⟨r.state, batch, List.mem_cons_self, by omega, hp⟩
    | phase1Timer =>
        have ht : r'.state = phase1CheckCb cfg r.state := move
        rw [ht]
        exact inv.phase1CheckCb
    | phase2Timer => exact inv.phase2CheckCb none move
    | deliver iid =>
        have ht : r'.state = leaderDeliverValue r.state iid := move
        rw [ht]
        exact inv.congr rfl

/-- Between events the count of every record that was opened is the number of acceptors
whose promise is stored, each of them was heard for the instance and the ballot of the
record, and the record is `p1_pending` below the quorum or `p1_finished` at it. -/
theorem promise_count_exact {cfg : Config} {propId : Int} {r : WithPast LeaderState LeaderEvent}
    (h : Reachable (leaderSystem cfg propId).withPast anyStep r) {k : Nat}
    (used : (r.state.proposerArray k).status ≠ .p1New) :
    (r.state.proposerArray k).promiseCount = (r.state.proposerArray k).answered cfg ∧
      (∀ j, ((r.state.proposerArray k).promises j).iid ≠ -1 →
        ∃ p, Heard r.past j p ∧ p.iid = (r.state.proposerArray k).iid ∧
          p.ballot = (r.state.proposerArray k).ballot ∧
          (r.state.proposerArray k).promises j = clearedPromise.store p) ∧
      ((r.state.proposerArray k).status = .p1Pending ∧
          (r.state.proposerArray k).promiseCount < cfg.quorum ∨
        (r.state.proposerArray k).status = .p1Finished ∧
          (r.state.proposerArray k).promiseCount = cfg.quorum) := by
  have hexact := records_exact h k used
  have hstate : Reachable (leaderSystem cfg propId) anyStep r.state := h.state fun _ _ ok => ok
  have none : NoneReady r.state := leader_noneReady hstate
  refine ⟨hexact.count_eq, ?_, ?_⟩
  · intro j hj
    refine (hexact.entries j).resolve_left fun hcleared => ?_
    rw [hcleared] at hj
    exact hj rfl
  · cases hstatus : (r.state.proposerArray k).status with
    | p1New => exact absurd hstatus used
    | p1Pending => exact .inl ⟨rfl, hexact.pending hstatus⟩
    | p1Ready => exact absurd hstatus (none k)
    | p1Finished => exact .inr ⟨rfl, hexact.full (.inr hstatus)⟩

/-- The leader after the batches, newest first. -/
def answersRun (cfg : Config) (propId : Int) :
    List PromiseBatchMsg → WithPast LeaderState LeaderEvent
  | [] => { state := leaderInit cfg propId, past := [] }
  | batch :: earlier =>
      let r := answersRun cfg propId earlier
      { state := leaderHandlePromiseMsg cfg r.state batch
        past := (r.state, .promises batch) :: r.past }

theorem answersRun_reachable {cfg : Config} {propId : Int} {batches : List PromiseBatchMsg}
    (wf : ∀ batch ∈ batches, batch.WellFormed cfg) :
    Reachable (leaderSystem cfg propId).withPast anyStep (answersRun cfg propId batches) := by
  induction batches with
  | nil => exact .init ⟨rfl, rfl⟩
  | cons batch earlier ih =>
      have hbefore := ih fun b hb => wf b (List.mem_cons_of_mem batch hb)
      exact .step (a := .promises batch) hbefore trivial ⟨⟨wf batch List.mem_cons_self, rfl⟩, rfl⟩

/-- All three acceptors have answered for instances 0 and 1, the second and the third of them
with values for instance 1; acceptor 1 has answered twice. -/
def quorumAnswers : List PromiseBatchMsg :=
  [valuedPromises 12 [8] 2, valuedPromises 11 [7] 1, valuedPromises 11 [7] 1,
    emptyPromises 20 20 0]

theorem promise_count_exact_quorumAnswers :
    ((answersRun .shipped 0 quorumAnswers).state.proposerArray 1).promiseCount =
        ((answersRun .shipped 0 quorumAnswers).state.proposerArray 1).answered .shipped ∧
      ((answersRun .shipped 0 quorumAnswers).state.proposerArray 1).status = .p1Finished ∧
      ((answersRun .shipped 0 quorumAnswers).state.proposerArray 1).promiseCount =
        Config.shipped.quorum := by
  have hbatches : ∀ batch ∈ quorumAnswers, batch.WellFormed .shipped := by
    have hthird := valuedPromises_wellFormed 12 [8] (a := 2) (by decide) (by decide)
    have hsecond := valuedPromises_wellFormed 11 [7] (a := 1) (by decide) (by decide)
    have hfirst := emptyPromises_wellFormed 20 20 (a := 0) (by decide) (by decide)
    simp only [quorumAnswers, List.forall_mem_cons, List.not_mem_nil, false_imp_iff,
      implies_true, and_true]
    exact ⟨hthird, hsecond, hsecond, hfirst⟩
  have used : ((answersRun .shipped 0 quorumAnswers).state.proposerArray 1).status ≠ .p1New := by
    decide +kernel
  have finished : ((answersRun .shipped 0 quorumAnswers).state.proposerArray 1).status ≠
      .p1Pending := by
    decide +kernel
  have hexact := promise_count_exact (answersRun_reachable hbatches) used
  exact ⟨hexact.1, hexact.2.2.resolve_left fun pending => finished pending.1⟩

end LibFastPaxos
