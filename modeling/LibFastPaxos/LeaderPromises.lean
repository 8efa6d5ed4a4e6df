import LibFastPaxos.Leader
import Mathlib.Data.Int.ConditionallyCompleteOrder
import Mathlib.Data.List.MinMax
import Mathlib.Order.ConditionallyCompleteLattice.Basic

/-!
What the leader stores of a promise and what `phase2_value` makes of the stored
promises. A promise is either ignored or stored in the one record that waits for
it, and the scan of `phase2_value` is a maximum over the stored values.
-/

namespace LibFastPaxos

section Slots

variable (cfg : Config) (s : LeaderState) (iid : Int) (r : ProposerRecord)

@[simp] theorem slot_setSlot : (s.setSlot cfg iid r).slot cfg iid = r := by
  simp [LeaderState.slot, LeaderState.setSlot]

theorem slot_setSlot_of_ne {j : Int}
    (h : cfg.proposerArraySize.index j ≠ cfg.proposerArraySize.index iid) :
    (s.setSlot cfg iid r).slot cfg j = s.slot cfg j := by
  simp [LeaderState.slot, LeaderState.setSlot, h]

theorem slot_congr {j : Int}
    (h : cfg.proposerArraySize.index j = cfg.proposerArraySize.index iid) :
    s.slot cfg j = s.slot cfg iid := by
  simp [LeaderState.slot, h]

end Slots

/-- The record waits for the promise of this acceptor. -/
structure ProposerRecord.Awaits (r : ProposerRecord) (prom : PromiseMsg) (acceptorId : Int) :
    Prop where
  iid_eq : r.iid = prom.iid
  pending : r.status = .p1Pending
  ballot_eq : r.ballot = prom.ballot
  missing : (r.promises acceptorId.toNat).iid = -1

/-- The promise as it is stored over the old entry of its acceptor. -/
def PromiseInfo.store (info : PromiseInfo) (prom : PromiseMsg) : PromiseInfo where
  iid := prom.iid
  valueBallot := prom.valueBallot
  valueSize := if prom.valueBallot ≠ -1 then prom.valueSize else info.valueSize
  value :=
    if prom.valueBallot ≠ -1 then some (memcpy prom.value prom.valueSize) else info.value

def ProposerRecord.store (r : ProposerRecord) (prom : PromiseMsg) (acceptorId : Int) :
    ProposerRecord :=
  { r with
    promises := Function.update r.promises acceptorId.toNat
      ((r.promises acceptorId.toNat).store prom)
    promiseCount := r.promiseCount + 1 }

/-- What `handle_promise` can do. -/
inductive PromiseOutcome (cfg : Config) (s : LeaderState) (prom : PromiseMsg)
    (acceptorId : Int) : LeaderState × Int → Prop where
  | ignored (not_awaited : ¬ (s.slot cfg prom.iid).Awaits prom acceptorId) :
      PromiseOutcome cfg s prom acceptorId (s, 0)
  | stored (awaited : (s.slot cfg prom.iid).Awaits prom acceptorId)
      (short : (s.slot cfg prom.iid).promiseCount + 1 < cfg.quorum) :
      PromiseOutcome cfg s prom acceptorId
        (s.setSlot cfg prom.iid ((s.slot cfg prom.iid).store prom acceptorId), 0)
  | reached (awaited : (s.slot cfg prom.iid).Awaits prom acceptorId)
      (quorum : cfg.quorum ≤ (s.slot cfg prom.iid).promiseCount + 1) (p1info : Phase1Info) :
      PromiseOutcome cfg s prom acceptorId
        ({ s.setSlot cfg prom.iid
            { (s.slot cfg prom.iid).store prom acceptorId with status := .p1Ready } with
          p1info := p1info }, 1)

theorem handlePromise_outcome (cfg : Config) (s : LeaderState) (prom : PromiseMsg)
    (acceptorId : Int) :
    PromiseOutcome cfg s prom acceptorId (handlePromise cfg s prom acceptorId) := by
  have hinfo : ∀ info : PromiseInfo,
      (if prom.valueBallot ≠ -1 then
          { info with
            iid := prom.iid, valueBallot := prom.valueBallot
            value := some (memcpy prom.value prom.valueSize), valueSize := prom.valueSize }
        else { info with iid := prom.iid, valueBallot := prom.valueBallot }) =
      info.store prom := by
    intro info
    simp only [PromiseInfo.store]
    split <;> rfl
  simp only [handlePromise]
  by_cases hiid : (s.slot cfg prom.iid).iid = prom.iid
  · by_cases hpending : (s.slot cfg prom.iid).status = .p1Pending
    · by_cases hballot : (s.slot cfg prom.iid).ballot = prom.ballot
      · by_cases hmissing : ((s.slot cfg prom.iid).promises acceptorId.toNat).iid = -1
        · have awaited : (s.slot cfg prom.iid).Awaits prom acceptorId :=
            ⟨hiid, hpending, hballot, hmissing⟩
          rw [if_neg (by simpa using hiid), if_neg (by simpa using hpending),
            if_neg (by simpa using hballot), if_neg (by simp [hmissing]), hinfo]
          split
          · next hshort => exact .stored awaited hshort
          · next hlong => exact .reached awaited (by omega) _
        · rw [if_neg (by simpa using hiid), if_neg (by simpa using hpending),
            if_neg (by simpa using hballot), if_pos ⟨hmissing, hballot⟩]
          exact .ignored fun h => hmissing h.missing
      · rw [if_neg (by simpa using hiid), if_neg (by simpa using hpending), if_pos hballot]
        exact .ignored fun h => hballot h.ballot_eq
    · rw [if_neg (by simpa using hiid), if_pos hpending]
      exact .ignored fun h => hpending h.pending
  · rw [if_pos hiid]
    exact .ignored fun h => hiid h.iid_eq

/-! ### phase2_value -/

/-- A stored promise that carries a value. -/
def PromiseInfo.Valued (info : PromiseInfo) : Prop := info.iid ≠ -1 ∧ -1 < info.valueBallot

instance (info : PromiseInfo) : Decidable info.Valued :=
  inferInstanceAs (Decidable (_ ∧ _))

/-- `max_ballot` belongs to `pi`. -/
def ScanInvariant : Int × Option PromiseInfo → Prop
  | (maxBallot, none) => maxBallot = -1
  | (maxBallot, some pi) => maxBallot = pi.valueBallot ∧ pi.Valued

theorem scanPromise_spec (r : ProposerRecord) {found : Int × Option PromiseInfo}
    (inv : ScanInvariant found) (i : Nat) :
    ScanInvariant (scanPromise r found i) ∧
      (scanPromise r found i).2 =
        if (r.promises i).Valued then
          List.argAux (fun b c => PromiseInfo.valueBallot c < PromiseInfo.valueBallot b) found.2
            (r.promises i)
        else found.2 := by
  obtain ⟨maxBallot, best⟩ := found
  simp only [scanPromise]
  by_cases hiid : (r.promises i).iid = -1
  · simp [hiid, PromiseInfo.Valued, inv]
  · cases best with
    | none =>
        have hmax : maxBallot = -1 := inv
        subst hmax
        by_cases hv : -1 < (r.promises i).valueBallot
        · have hne : (r.promises i).valueBallot ≠ -1 := by omega
          simp [hiid, hv, hne, PromiseInfo.Valued, ScanInvariant, List.argAux]
        · simp [hiid, hv, PromiseInfo.Valued, ScanInvariant]
    | some pi =>
        obtain ⟨hmax, hpi⟩ := inv
        have hpos := hpi.2
        by_cases hlt : pi.valueBallot < (r.promises i).valueBallot
        · have hne : (r.promises i).valueBallot ≠ -1 := by omega
          have hv : -1 < (r.promises i).valueBallot := by omega
          simp [hiid, hne, hv, hmax, hlt, PromiseInfo.Valued, ScanInvariant, List.argAux]
        · simp [hiid, hmax, hlt, hpi, ScanInvariant, List.argAux]

/-- The scan is Mathlib's maximum over the promises that carry a value. -/
theorem phase2Value_eq_argmax (cfg : Config) (r : ProposerRecord) :
    phase2Value cfg r =
      (((List.range cfg.nOfAcceptors).map r.promises).filter
        fun info => decide info.Valued).argmax PromiseInfo.valueBallot := by
  have hscan : ∀ (l : List Nat) (found : Int × Option PromiseInfo), ScanInvariant found →
      (l.foldl (scanPromise r) found).2 =
        ((l.map r.promises).filter fun info => decide info.Valued).foldl
          (List.argAux fun b c => PromiseInfo.valueBallot c < PromiseInfo.valueBallot b)
          found.2 := by
    intro l
    induction l with
    | nil =>
        intro found _
        rfl
    | cons i l ih =>
        intro found inv
        obtain ⟨inv', hstep⟩ := scanPromise_spec r inv i
        rw [List.foldl_cons, ih _ inv', hstep, List.map_cons, List.filter_cons]
        by_cases hv : (r.promises i).Valued
        · simp [hv]
        · simp [hv]
  exact hscan _ _ rfl

theorem phase2Value_eq_none {cfg : Config} {r : ProposerRecord} :
    phase2Value cfg r = none ↔ ∀ a, a < cfg.nOfAcceptors → ¬ (r.promises a).Valued := by
  rw [phase2Value_eq_argmax, List.argmax_eq_none, List.filter_eq_nil_iff]
  simp

/-- The promise chosen is one of the stored ones and no stored value has a higher ballot. -/
theorem phase2Value_spec {cfg : Config} {r : ProposerRecord} {pi : PromiseInfo}
    (h : phase2Value cfg r = some pi) :
    (∃ a, a < cfg.nOfAcceptors ∧ r.promises a = pi) ∧ pi.Valued ∧
      ∀ a, a < cfg.nOfAcceptors → (r.promises a).Valued →
        (r.promises a).valueBallot ≤ pi.valueBallot := by
  rw [phase2Value_eq_argmax] at h
  have hmem := List.argmax_mem h
  simp only [List.mem_filter, List.mem_map, List.mem_range, decide_eq_true_eq] at hmem
  obtain ⟨⟨a, ha, hpi⟩, hv⟩ := hmem
  refine ⟨⟨a, ha, hpi⟩, hv, ?_⟩
  intro b hb hbv
  apply List.le_of_mem_argmax _ h
  simp only [List.mem_filter, List.mem_map, List.mem_range, decide_eq_true_eq]
  exact ⟨⟨b, hb, rfl⟩, hbv⟩

end LibFastPaxos
