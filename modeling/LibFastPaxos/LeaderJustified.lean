import LibFastPaxos.LeaderCounts

/-!
Phase 2 against what phase 1 justifies. Whether an instance has a value is read off the
promises stored in its record, not off what `phase2_value` makes of them. The main theorem
says exactly when the messages of a batch are the justified ones.
-/

namespace LibFastPaxos

open Transition Packing

/-- Somebody's stored promise carries a value. -/
def PromiseInfo.Carries (info : PromiseInfo) : Prop := info.iid ≠ -1 ∧ info.value ≠ none

instance (info : PromiseInfo) : Decidable info.Carries :=
  inferInstanceAs (Decidable (_ ∧ _))

section Justified

variable (cfg : Config)

def ProposerRecord.CarriesValue (r : ProposerRecord) : Prop :=
  ∃ a, a < cfg.nOfAcceptors ∧ (r.promises a).Carries

instance (r : ProposerRecord) : Decidable (r.CarriesValue cfg) :=
  inferInstanceAs (Decidable (∃ a, a < cfg.nOfAcceptors ∧ (r.promises a).Carries))

/-- The promise is stored in the record, and none with a value has a higher ballot. -/
structure ProposerRecord.Highest (r : ProposerRecord) (pi : PromiseInfo) : Prop where
  stored : ∃ a, a < cfg.nOfAcceptors ∧ r.promises a = pi
  carries : pi.Carries
  highest : ∀ a, a < cfg.nOfAcceptors → (r.promises a).Carries →
    (r.promises a).valueBallot ≤ pi.valueBallot

/-- The phase-2 message that the promises of a record justify. -/
inductive ProposerRecord.Justifies (r : ProposerRecord) : Phase2Entry → Prop where
  | accept {pi : PromiseInfo} (value : r.CarriesValue cfg) (picked : phase2Value cfg r = some pi)
      (highest : r.Highest cfg pi) :
      Justifies r (.accept r.ballot pi.valueSize (memcpy (pi.value.getD []) pi.valueSize))
  | any (empty : ¬ r.CarriesValue cfg) : Justifies r (.any r.ballot)

variable (s : LeaderState) (batch : PromiseBatchMsg)

/-- The record of an instance when the promises of the batch are stored. -/
def promisedRecord (i : Int) : ProposerRecord := (storePromises cfg s batch).slot cfg i

/-- The call has sent one justified phase-2 message for every instance that reaches a quorum
and none for any other instance, and leaves those finished and none ready. -/
structure Phase2Justified (t : LeaderState) : Prop where
  messages : ∃ new, t.sent = new ++ s.sent ∧
    (∀ i ∈ reached cfg s batch, ∃ entry, (promisedRecord cfg s batch i).Justifies cfg entry ∧
      (phase2Entries new).filter (fun e => e.1 = i) = [(i, entry)]) ∧
    ∀ i, i ∉ reached cfg s batch → (phase2Entries new).filter (fun e => e.1 = i) = []
  finished : ∀ i ∈ reached cfg s batch,
    (t.slot cfg i).iid = i ∧ (t.slot cfg i).status = .p1Finished
  none_ready : NoneReady t

/-- Where promises carry values, one of these has a ballot that is not negative. -/
def ValuesRanked : Prop :=
  ∀ i ∈ reached cfg s batch, (promisedRecord cfg s batch i).CarriesValue cfg →
    ∃ a, a < cfg.nOfAcceptors ∧ ((promisedRecord cfg s batch i).promises a).Carries ∧
      0 ≤ ((promisedRecord cfg s batch i).promises a).valueBallot

/-- No lower id of the batch's window shares the slot of an instance without a value. -/
def SlotsApart : Prop :=
  ∀ i ∈ reached cfg s batch, ¬ (promisedRecord cfg s batch i).CarriesValue cfg →
    ∀ prom ∈ batch.data, i - cfg.proposerArraySize.size < prom.iid

/-- The instances packed into one anyval message have one ballot. -/
def BallotsUniform : Prop :=
  ∀ packet ∈ pack anyvalCapacity
      ((reached cfg s batch).filter fun i => ¬ (promisedRecord cfg s batch i).CarriesValue cfg),
    ∀ i ∈ packet, -1 ≤ (promisedRecord cfg s batch i).ballot ∧
      ∀ j ∈ packet,
        (promisedRecord cfg s batch i).ballot = (promisedRecord cfg s batch j).ballot

end Justified

section Records

variable {cfg : Config} {heard : Nat → PromiseMsg → Prop} {r : ProposerRecord}

/-- An entry that was heard carries a value unless its ballot says that it has none. -/
theorem ProposerRecord.EntryHeard.carries_iff {j : Nat} (h : r.EntryHeard heard j)
    (used : r.iid ≠ -1) :
    (r.promises j).Carries ↔ (r.promises j).iid ≠ -1 ∧ (r.promises j).valueBallot ≠ -1 := by
  cases h with
  | inl cleared => simp [cleared, PromiseInfo.Carries, clearedPromise]
  | inr heard =>
      obtain ⟨p, -, hiid, -, hp⟩ := heard
      have hne : p.iid ≠ -1 := hiid ▸ used
      by_cases hvb : p.valueBallot = -1
      · simp [hp, PromiseInfo.Carries, PromiseInfo.store, clearedPromise, hvb]
      · simp [hp, PromiseInfo.Carries, PromiseInfo.store, hvb, hne]

/-- The scan takes the values whose ballots are not negative. -/
theorem ProposerRecord.Exact.valued_iff (h : r.Exact cfg heard) (used : r.iid ≠ -1) (a : Nat) :
    (r.promises a).Valued ↔ (r.promises a).Carries ∧ 0 ≤ (r.promises a).valueBallot := by
  rw [(h.entries a).carries_iff used, PromiseInfo.Valued]
  constructor
  · rintro ⟨hiid, hballot⟩
    exact ⟨⟨hiid, by omega⟩, by omega⟩
  · rintro ⟨⟨hiid, -⟩, hballot⟩
    exact ⟨hiid, by omega⟩

theorem ProposerRecord.Exact.highest (h : r.Exact cfg heard) (used : r.iid ≠ -1)
    {pi : PromiseInfo} (picked : phase2Value cfg r = some pi) : r.Highest cfg pi := by
  obtain ⟨⟨a, ha, rfl⟩, hvalued, hhighest⟩ := phase2Value_spec picked
  obtain ⟨hcarries, hnonneg⟩ := (h.valued_iff used a).mp hvalued
  refine ⟨⟨a, ha, rfl⟩, hcarries, fun b hb hcarried => ?_⟩
  by_cases hlow : (r.promises b).valueBallot < 0
  · omega
  · exact hhighest b hb ((h.valued_iff used b).mpr ⟨hcarried, by omega⟩)

/-- A value that is picked is one that is carried. -/
theorem ProposerRecord.Exact.carriesValue (h : r.Exact cfg heard) (used : r.iid ≠ -1)
    {pi : PromiseInfo} (picked : phase2Value cfg r = some pi) : r.CarriesValue cfg := by
  have hhighest := h.highest used picked
  obtain ⟨a, ha, rfl⟩ := hhighest.stored
  exact ⟨a, ha, hhighest.carries⟩

/-- Nothing is picked exactly where nothing is carried, as long as the values are ranked. -/
theorem ProposerRecord.Exact.phase2Value_none (h : r.Exact cfg heard) (used : r.iid ≠ -1)
    (ranked : r.CarriesValue cfg →
      ∃ a, a < cfg.nOfAcceptors ∧ (r.promises a).Carries ∧ 0 ≤ (r.promises a).valueBallot) :
    phase2Value cfg r = none ↔ ¬ r.CarriesValue cfg := by
  rw [phase2Value_eq_none]
  constructor
  · intro none carried
    obtain ⟨a, ha, hcarries, hnonneg⟩ := ranked carried
    exact none a ha ((h.valued_iff used a).mpr ⟨hcarries, hnonneg⟩)
  · intro empty a ha valued
    exact empty ⟨a, ha, ((h.valued_iff used a).mp valued).1⟩

theorem ProposerRecord.Exact.justifies_iff (h : r.Exact cfg heard) (used : r.iid ≠ -1)
    (ranked : r.CarriesValue cfg →
      ∃ a, a < cfg.nOfAcceptors ∧ (r.promises a).Carries ∧ 0 ≤ (r.promises a).valueBallot)
    (entry : Phase2Entry) : r.Justifies cfg entry ↔ entry = justifiedEntry cfg r := by
  have hnone := h.phase2Value_none used ranked
  cases hvalue : phase2Value cfg r with
  | none =>
      have hentry : justifiedEntry cfg r = .any r.ballot := by simp [justifiedEntry, hvalue]
      rw [hentry]
      constructor
      · intro justified
        cases justified with
        | accept _ picked _ =>
            rw [hvalue] at picked
            cases picked
        | any _ => rfl
      · rintro rfl
        exact .any (hnone.mp hvalue)
  | some pi =>
      have hentry : justifiedEntry cfg r =
          .accept r.ballot pi.valueSize (memcpy (pi.value.getD []) pi.valueSize) := by
        simp [justifiedEntry, hvalue]
      have hcarries := h.carriesValue used hvalue
      rw [hentry]
      constructor
      · intro justified
        cases justified with
        | accept _ picked _ =>
            obtain rfl := Option.some.inj (hvalue.symm.trans picked)
            rfl
        | any empty => exact absurd hcarries empty
      · rintro rfl
        exact .accept hcarries hvalue (h.highest used hvalue)

end Records

section Batches

variable {cfg : Config} {s : LeaderState} {batch : PromiseBatchMsg}

/-- The records of a reachable leader are exact, whatever was heard. -/
theorem leader_recordsExact {propId : Int} (h : Reachable (leaderSystem cfg propId) anyStep s) :
    RecordsExact cfg (fun _ _ => True) s := by
  refine Reachable.invariant ?_ ?_ h
  · intro s start
    obtain rfl := start
    apply RecordsExact.executePhase1
    intro k used
    exact absurd rfl used
  · intro s event t before inv _ move
    cases event with
    | promises batch =>
        obtain ⟨wf, rfl⟩ := move
        exact inv.leaderHandlePromiseMsg wf fun _ _ => trivial
    | phase1Timer =>
        obtain rfl := move
        exact inv.phase1CheckCb
    | phase2Timer => exact inv.phase2CheckCb (leader_noneReady before) move
    | deliver iid =>
        obtain rfl := move
        exact inv.congr rfl

theorem RecordsExact.storePromises {heard : Nat → PromiseMsg → Prop} (h : RecordsExact cfg heard s)
    (wf : batch.WellFormed cfg) (hears : ∀ p ∈ batch.data, heard batch.acceptorId.toNat p) :
    RecordsExact cfg heard (storePromises cfg s batch) := by
  have hlt : batch.acceptorId.toNat < cfg.nOfAcceptors := by
    have := wf.acceptor_nonneg
    have := wf.acceptor_lt
    omega
  refine List.foldlRecOn _ _ h fun u hu p hp => ?_
  have hp := List.mem_of_mem_take hp
  exact hu.handlePromise (hears p hp) (wf.ids_nonneg p hp) hlt

/-- The record of an instance that reaches its quorum is exact and the instance's own. -/
theorem promisedRecord_exact (records : RecordsExact cfg (fun _ _ => True) s)
    (none : NoneReady s) (wf : batch.WellFormed cfg) {i : Int} (hi : i ∈ reached cfg s batch) :
    (promisedRecord cfg s batch i).Exact cfg (fun _ _ => True) ∧
      (promisedRecord cfg s batch i).iid ≠ -1 := by
  have w := batch_window wf none
  have hready : (promisedRecord cfg s batch i).status = .p1Ready := w.ready.ready hi
  have hiid : (promisedRecord cfg s batch i).iid = i := w.ready.iid_eq i hi
  have hfirst := w.nonneg i hi
  have hinside := (w.inside i hi).1
  refine ⟨records.storePromises wf (fun _ _ => trivial) _ ?_, by omega⟩
  change (promisedRecord cfg s batch i).status ≠ .p1New
  rw [hready]
  decide

/-- What the code's own test finds out about the instances of a batch with ranked values. -/
theorem hasNoValue_iff (records : RecordsExact cfg (fun _ _ => True) s) (none : NoneReady s)
    (wf : batch.WellFormed cfg) (ranked : ValuesRanked cfg s batch) {i : Int}
    (hi : i ∈ reached cfg s batch) :
    hasNoValue cfg (storePromises cfg s batch) i = true ↔
      ¬ (promisedRecord cfg s batch i).CarriesValue cfg := by
  obtain ⟨hexact, hused⟩ := promisedRecord_exact records none wf hi
  rw [← hexact.phase2Value_none hused (ranked i hi), hasNoValue, Option.isNone_iff_eq_none]
  rfl

/-- With ranked values the justified messages are those of the records. -/
theorem justified_iff_entries (records : RecordsExact cfg (fun _ _ => True) s)
    (none : NoneReady s) (wf : batch.WellFormed cfg) (ranked : ValuesRanked cfg s batch)
    (entries : List (Int × Phase2Entry)) :
    ((∀ i ∈ reached cfg s batch, ∃ entry, (promisedRecord cfg s batch i).Justifies cfg entry ∧
        entries.filter (fun e => e.1 = i) = [(i, entry)]) ∧
      ∀ i, i ∉ reached cfg s batch → entries.filter (fun e => e.1 = i) = []) ↔
      EntriesJustified cfg (storePromises cfg s batch) (reached cfg s batch) entries := by
  have hjustifies : ∀ i ∈ reached cfg s batch, ∀ entry,
      (promisedRecord cfg s batch i).Justifies cfg entry ↔
        entry = justifiedEntry cfg ((storePromises cfg s batch).slot cfg i) := by
    intro i hi entry
    obtain ⟨hexact, hused⟩ := promisedRecord_exact records none wf hi
    exact hexact.justifies_iff hused (ranked i hi) entry
  constructor
  · intro ⟨own, others⟩ i
    split
    · next hi =>
        obtain ⟨entry, hentry, hfilter⟩ := own i hi
        rw [hfilter, (hjustifies i hi entry).mp hentry]
    · next hi => exact others i hi
  · intro h
    refine ⟨fun i hi => ⟨_, (hjustifies i hi _).mpr rfl, ?_⟩, fun i hi => ?_⟩
    · rw [h i, if_pos hi]
    · rw [h i, if_neg hi]

/-- Something is picked for every instance that has to be answered by an accept. -/
theorem Phase2Justified.ranked {t : LeaderState} (h : Phase2Justified cfg s batch t)
    (records : RecordsExact cfg (fun _ _ => True) s) (none : NoneReady s)
    (wf : batch.WellFormed cfg) : ValuesRanked cfg s batch := by
  intro i hi carried
  obtain ⟨hexact, hused⟩ := promisedRecord_exact records none wf hi
  obtain ⟨new, -, own, -⟩ := h.messages
  obtain ⟨entry, hentry, -⟩ := own i hi
  cases hentry with
  | accept _ picked _ =>
      obtain ⟨⟨a, ha, rfl⟩, hvalued, -⟩ := phase2Value_spec picked
      exact ⟨a, ha, (hexact.valued_iff hused a).mp hvalued⟩
  | any empty => exact absurd carried empty

end Batches

/-- In every reachable state the call returns and a batch is answered with exactly the
phase-2 messages that phase 1 justifies if and only if the batch does not end at `INT_MAX`,
the values carried are ranked, the ids without a value are alone in their slots and those
packed into one message have one ballot. -/
theorem phase2_justified_iff {cfg : Config} {propId : Int} {s : LeaderState}
    {batch : PromiseBatchMsg} (h : Reachable (leaderSystem cfg propId) anyStep s)
    (wf : batch.WellFormed cfg) :
    (∃ t, leaderHandlePromiseMsg? cfg s batch = some t ∧ Phase2Justified cfg s batch t) ↔
      ¬ batch.Endless ∧ ValuesRanked cfg s batch ∧ SlotsApart cfg s batch ∧
        BallotsUniform cfg s batch := by
  have none := leader_noneReady h
  have records := leader_recordsExact h
  obtain ⟨new, hsent, hentries⟩ := batch_entries_iff wf none
  -- with ranked values the conditions are those on the code's own test
  have hconditions : ValuesRanked cfg s batch →
      (EntriesJustified cfg (storePromises cfg s batch) (reached cfg s batch) (phase2Entries new) ↔
        SlotsApart cfg s batch ∧ BallotsUniform cfg s batch) := by
    intro ranked
    have hnone := fun i hi => hasNoValue_iff records none wf ranked (i := i) hi
    have hfilter : (reached cfg s batch).filter (hasNoValue cfg (storePromises cfg s batch)) =
        (reached cfg s batch).filter
          fun i => ¬ (promisedRecord cfg s batch i).CarriesValue cfg := by
      apply List.filter_congr
      intro i hi
      rw [Bool.eq_iff_iff, hnone i hi, decide_eq_true_iff]
    rw [hentries, hfilter]
    refine and_congr_left' (forall₂_congr fun i hi => ?_)
    rw [hnone i hi]
  constructor
  · intro ⟨t, ht, justified⟩
    obtain ⟨hends, ht⟩ := Option.ite_none_left_eq_some.mp ht
    obtain rfl := Option.some.inj ht
    have ranked := justified.ranked records none wf
    obtain ⟨new', hsent', hmessages⟩ := justified.messages
    obtain rfl := List.append_cancel_right (hsent.symm.trans hsent')
    exact ⟨hends, ranked,
      (hconditions ranked).mp ((justified_iff_entries records none wf ranked _).mp hmessages)⟩
  · intro ⟨hends, ranked, fits⟩
    obtain ⟨hfinished, hnone⟩ := batch_finishes wf none
    exact ⟨_, if_neg hends, ⟨new, hsent,
      (justified_iff_entries records none wf ranked _).mpr ((hconditions ranked).mpr fits)⟩,
      hfinished, hnone⟩

/-- Acceptor 0 has reported a value for instance 1 and acceptor 1 none. -/
def oneReport : LeaderState :=
  leaderHandlePromiseMsg .shipped
    (leaderHandlePromiseMsg .shipped (leaderInit .shipped 0) (valuedPromises 11 [7] 0))
    (emptyPromises 20 20 1)

theorem oneReport_reachable : Reachable (leaderSystem .shipped 0) anyStep oneReport := by
  have hfirst := valuedPromises_wellFormed 11 [7] (Int.le_refl 0) (by decide)
  have hsecond := emptyPromises_wellFormed 20 20 (a := 1) (by decide) (by decide)
  exact .step (a := .promises (emptyPromises 20 20 1))
    (.step (a := .promises (valuedPromises 11 [7] 0)) leaderInit_reachable trivial ⟨hfirst, rfl⟩)
    trivial ⟨hsecond, rfl⟩

/-- The third acceptor reports a higher value, which goes out for instance 1. -/
theorem phase2_justified_secondReport :
    ∃ t, leaderHandlePromiseMsg? .shipped oneReport (valuedPromises 12 [8] 2) = some t ∧
      Phase2Justified .shipped oneReport (valuedPromises 12 [8] 2) t ∧
      Sends t.sent ⟨1, 20, 1, 2, [8]⟩ := by
  have wf := valuedPromises_wellFormed 12 [8] (a := 2) (by decide) (by decide)
  have hranked : ValuesRanked .shipped oneReport (valuedPromises 12 [8] 2) := by
    simp only [ValuesRanked]
    decide +kernel
  have hapart : SlotsApart .shipped oneReport (valuedPromises 12 [8] 2) := by
    simp only [SlotsApart]
    decide +kernel
  have huniform : BallotsUniform .shipped oneReport (valuedPromises 12 [8] 2) := by
    simp only [BallotsUniform]
    decide +kernel
  obtain ⟨t, ht, hjustified⟩ :=
    (phase2_justified_iff oneReport_reachable wf).mpr ⟨by decide, hranked, hapart, huniform⟩
  have hsends : ∀ u, leaderHandlePromiseMsg? .shipped oneReport (valuedPromises 12 [8] 2) =
      some u → acceptPacket ⟨1, 20, 1, 2, [8]⟩ ∈ u.sent := by
    decide +kernel
  exact ⟨t, ht, hjustified, _, hsends t ht, rfl⟩

/-- Instance 1 goes out under the ballot of instance 0. -/
theorem retriedLeader_mixes_ballots :
    Reachable (leaderSystem .shipped 0) anyStep (twoAnswers retriedLeader 40 30) ∧
      (emptyPromises 40 30 2).WellFormed .shipped ∧
      ¬ ∃ t, leaderHandlePromiseMsg? .shipped (twoAnswers retriedLeader 40 30)
          (emptyPromises 40 30 2) = some t ∧
        Phase2Justified .shipped (twoAnswers retriedLeader 40 30) (emptyPromises 40 30 2) t := by
  refine ⟨twoAnswers_reachable 40 30 retriedLeader_reachable,
    emptyPromises_wellFormed 40 30 (by decide) (by decide), ?_⟩
  intro ⟨t, ht, justified⟩
  obtain ⟨-, ht⟩ := Option.ite_none_left_eq_some.mp ht
  obtain rfl := Option.some.inj ht
  obtain ⟨new, hsent, own, -⟩ := justified.messages
  have hout : (leaderHandlePromiseMsg .shipped (twoAnswers retriedLeader 40 30)
      (emptyPromises 40 30 2)).sent =
        [anyvalPacket 40 [0, 1]] ++ (twoAnswers retriedLeader 40 30).sent := by
    decide +kernel
  obtain rfl := List.append_cancel_right (hout.symm.trans hsent)
  obtain ⟨entry, hentry, hfilter⟩ := own 1 (by decide +kernel)
  have hone : (phase2Entries [anyvalPacket 40 [0, 1]]).filter (fun e => e.1 = 1) =
      [(1, .any 40)] := by
    decide
  have hany : [((1 : Int), Phase2Entry.any 40)] = [(1, entry)] := hone.symm.trans hfilter
  have hrecord : (promisedRecord .shipped (twoAnswers retriedLeader 40 30)
      (emptyPromises 40 30 2) 1).ballot = 30 := by
    decide +kernel
  cases hentry with
  | accept _ _ _ => cases hany
  | any _ =>
      rw [hrecord] at hany
      exact absurd hany (by decide)

end LibFastPaxos
