import LibFastPaxos.LeaderPromises
import Mathlib.Data.Finset.Card

/-!
Recovering a fast round. A quorum of acceptors may have voted for a value while
others voted for a colliding one. The leader takes the value of the highest
ballot among the promises of a quorum, and not the value that the quorum may
have chosen: the two agree when no collision stands above the chosen value.
-/

namespace LibFastPaxos

structure FastVote where
  ballot : Int
  value : Bytes
  deriving DecidableEq, Repr

/-- One vote at most for each acceptor, at the fixed ballots of the proposers. -/
structure FastRound (cfg : Config) where
  vote : Nat → Option FastVote
  fast_ballot : ∀ a x, vote a = some x →
    cfg.maxProposers ≤ x.ballot ∧ x.ballot < 2 * cfg.maxProposers
  one_value : ∀ a b x y, vote a = some x → vote b = some y → x.ballot = y.ballot →
    x.value = y.value

/-- What an acceptor with this vote answers to a prepare. -/
def FastVote.promise (iid ballot : Int) : Option FastVote → PromiseMsg
  | none => { iid := iid, ballot := ballot, valueBallot := -1, valueSize := 0, value := [] }
  | some x =>
      { iid := iid, ballot := ballot, valueBallot := x.ballot, valueSize := x.value.length
        value := x.value }

namespace FastRound

variable {cfg : Config} (round : FastRound cfg)

def voters (v : Bytes) : Finset Nat :=
  (Finset.range cfg.nOfAcceptors).filter fun a => (round.vote a).map FastVote.value = some v

/-- A quorum accepted the value. -/
def Chosen (v : Bytes) : Prop := cfg.quorum ≤ (round.voters v).card

/-- No acceptor among these voted for another value above all their votes for `v`. -/
def Uncontested (v : Bytes) (acceptors : List Nat) : Prop :=
  ∀ a ∈ acceptors, ∀ x, round.vote a = some x → x.value ≠ v →
    ∃ b ∈ acceptors, ∃ y, round.vote b = some y ∧ y.value = v ∧ x.ballot < y.ballot

theorem ballot_nonneg {a : Nat} {x : FastVote} (hx : round.vote a = some x) : 0 ≤ x.ballot := by
  have hfast := (round.fast_ballot a x hx).1
  have := cfg.maxProposers_pos
  omega

theorem mem_voters {v : Bytes} {a : Nat} :
    a ∈ round.voters v ↔
      a < cfg.nOfAcceptors ∧ ∃ x, round.vote a = some x ∧ x.value = v := by
  simp [voters]

/-- Up to three acceptors a chosen value has every vote. -/
theorem uncontested_of_three {v : Bytes} (small : cfg.nOfAcceptors ≤ 3) (chosen : round.Chosen v)
    {acceptors : List Nat} (bound : ∀ a ∈ acceptors, a < cfg.nOfAcceptors) :
    round.Uncontested v acceptors := by
  have hquorum := cfg.quorum_eq_nOfAcceptors_iff.mpr small
  have hall : round.voters v = Finset.range cfg.nOfAcceptors := by
    apply Finset.eq_of_subset_of_card_le (Finset.filter_subset _ _)
    change _ ≤ (round.voters v).card
    rw [Finset.card_range]
    unfold Chosen at chosen
    omega
  intro a ha x hx hne
  have hmem : a ∈ round.voters v := by
    rw [hall, Finset.mem_range]
    exact bound a ha
  obtain ⟨-, y, hy, hv⟩ := round.mem_voters.mp hmem
  rw [hx] at hy
  cases hy
  exact absurd hv hne

/-- Of any quorum, one acceptor voted for a chosen value. -/
theorem voter_of_chosen {v : Bytes} (chosen : round.Chosen v) {acceptors : List Nat}
    (distinct : acceptors.Nodup) (bound : ∀ a ∈ acceptors, a < cfg.nOfAcceptors)
    (quorum : (acceptors.length : Int) = cfg.quorum) :
    ∃ a ∈ acceptors, ∃ x, round.vote a = some x ∧ x.value = v := by
  have hmeet := cfg.two_quorums_meet
  have hsub : acceptors.toFinset ⊆ Finset.range cfg.nOfAcceptors := by
    intro a ha
    exact Finset.mem_range.mpr (bound a (List.mem_toFinset.mp ha))
  have hcard : (Finset.range cfg.nOfAcceptors).card <
      acceptors.toFinset.card + (round.voters v).card := by
    rw [Finset.card_range, List.toFinset_card_of_nodup distinct]
    unfold Chosen at chosen
    omega
  obtain ⟨a, ha⟩ := Finset.inter_nonempty_of_card_lt_card_add_card hsub
    (Finset.filter_subset _ _) hcard
  obtain ⟨hmem, hvoter⟩ := Finset.mem_inter.mp ha
  exact ⟨a, List.mem_toFinset.mp hmem, (round.mem_voters.mp hvoter).2⟩

end FastRound

/-- The record of the instance waits at its ballot and has no promise yet. -/
structure LeaderState.Awaiting (s : LeaderState) (cfg : Config) (iid ballot : Int) : Prop where
  iid_eq : (s.slot cfg iid).iid = iid
  pending : (s.slot cfg iid).status = .p1Pending
  ballot_eq : (s.slot cfg iid).ballot = ballot
  promiseCount_eq : (s.slot cfg iid).promiseCount = 0
  cleared : ∀ a, a < cfg.nOfAcceptors → (s.slot cfg iid).promises a = clearedPromise

/-- The promises of these acceptors handled one after the other. -/
def handleVotes (cfg : Config) (round : FastRound cfg) (iid ballot : Int) (s : LeaderState)
    (acceptors : List Nat) : LeaderState :=
  acceptors.foldl
    (fun s a => (handlePromise cfg s (FastVote.promise iid ballot (round.vote a)) a).1) s

/-- The record after the promises of `acceptors` arrived. -/
structure VotesStored (cfg : Config) (round : FastRound cfg) (iid ballot : Int) (s : LeaderState)
    (acceptors : List Nat) : Prop where
  iid_eq : (s.slot cfg iid).iid = iid
  pending : (acceptors.length : Int) < cfg.quorum → (s.slot cfg iid).status = .p1Pending
  ballot_eq : (s.slot cfg iid).ballot = ballot
  promiseCount_eq : (s.slot cfg iid).promiseCount = acceptors.length
  stored : ∀ a ∈ acceptors, (s.slot cfg iid).promises a =
    clearedPromise.store (FastVote.promise iid ballot (round.vote a))
  missing : ∀ a, a < cfg.nOfAcceptors → a ∉ acceptors →
    (s.slot cfg iid).promises a = clearedPromise

section Votes

variable {cfg : Config} {round : FastRound cfg} {iid ballot : Int} {s : LeaderState}

theorem promise_iid (iid ballot : Int) (vote : Option FastVote) :
    (FastVote.promise iid ballot vote).iid = iid := by
  cases vote <;> rfl

theorem promise_ballot (iid ballot : Int) (vote : Option FastVote) :
    (FastVote.promise iid ballot vote).ballot = ballot := by
  cases vote <;> rfl

theorem VotesStored.store {seen : List Nat} (h : VotesStored cfg round iid ballot s seen)
    {a : Nat} (bound : a < cfg.nOfAcceptors) (fresh : a ∉ seen) (status : StatusFlag)
    {t : LeaderState}
    (slot : t.slot cfg iid =
      { (s.slot cfg iid).store (FastVote.promise iid ballot (round.vote a)) a with
        status := status })
    (pending : ((seen ++ [a]).length : Int) < cfg.quorum → status = .p1Pending) :
    VotesStored cfg round iid ballot t (seen ++ [a]) := by
  constructor
  · rw [slot]
    exact h.iid_eq
  · rw [slot]
    exact pending
  · rw [slot]
    exact h.ballot_eq
  · rw [slot]
    simp [ProposerRecord.store, h.promiseCount_eq]
  · intro b hb
    rw [slot]
    by_cases hba : b = a
    · subst hba
      simp [ProposerRecord.store, h.missing b bound fresh]
    · have hseen : b ∈ seen := by simpa [hba] using hb
      simp [ProposerRecord.store, hba, h.stored b hseen]
  · intro b hbound hb
    rw [slot]
    have hba : b ≠ a := by
      intro heq
      exact hb (by simp [heq])
    have hseen : b ∉ seen := by
      intro hmem
      exact hb (by simp [hmem])
    simp [ProposerRecord.store, hba, h.missing b hbound hseen]

/-- While a quorum is missing, a promise of a new acceptor is stored. -/
theorem VotesStored.step {seen : List Nat} (h : VotesStored cfg round iid ballot s seen)
    {a : Nat} (bound : a < cfg.nOfAcceptors) (fresh : a ∉ seen)
    (short : (seen.length : Int) < cfg.quorum) :
    VotesStored cfg round iid ballot
      (handlePromise cfg s (FastVote.promise iid ballot (round.vote a)) a).1 (seen ++ [a]) := by
  have hiid := promise_iid iid ballot (round.vote a)
  have awaited : (s.slot cfg iid).Awaits (FastVote.promise iid ballot (round.vote a)) a := by
    refine ⟨?_, h.pending short, ?_, ?_⟩
    · rw [hiid, h.iid_eq]
    · rw [promise_ballot, h.ballot_eq]
    · simp [h.missing a bound fresh, clearedPromise]
  generalize hres : handlePromise cfg s (FastVote.promise iid ballot (round.vote a)) a = res
  have outcome := handlePromise_outcome cfg s (FastVote.promise iid ballot (round.vote a)) a
  rw [hres] at outcome
  cases outcome with
  | ignored not_awaited => exact absurd awaited (by rw [hiid] at not_awaited; exact not_awaited)
  | stored _ short' =>
      rw [hiid]
      apply h.store bound fresh (s.slot cfg iid).status
      · simp [ProposerRecord.store]
      · intro _
        exact h.pending short
  | reached _ quorum p1info =>
      rw [hiid] at quorum
      rw [hiid]
      apply h.store bound fresh .p1Ready
      · simp [LeaderState.slot, LeaderState.setSlot]
      · intro hlt
        rw [h.promiseCount_eq] at quorum
        simp only [List.length_append, List.length_singleton] at hlt
        omega

theorem votes_stored (acceptors : List Nat) {seen : List Nat}
    (h : VotesStored cfg round iid ballot s seen)
    (distinct : (seen ++ acceptors).Nodup) (bound : ∀ a ∈ acceptors, a < cfg.nOfAcceptors)
    (quorum : ((seen ++ acceptors).length : Int) ≤ cfg.quorum) :
    VotesStored cfg round iid ballot (handleVotes cfg round iid ballot s acceptors)
      (seen ++ acceptors) := by
  induction acceptors generalizing s seen with
  | nil =>
      rw [List.append_nil]
      exact h
  | cons a acceptors ih =>
      have hshort : (seen.length : Int) < cfg.quorum := by
        simp only [List.length_append, List.length_cons] at quorum
        omega
      have hfresh : a ∉ seen := by
        intro hmem
        exact (List.nodup_append.mp distinct).2.2 a hmem a List.mem_cons_self rfl
      have hsplit : seen ++ a :: acceptors = (seen ++ [a]) ++ acceptors := by simp
      rw [hsplit] at distinct quorum ⊢
      exact ih (h.step (bound a List.mem_cons_self) hfresh hshort) distinct
        (fun b hb => bound b (List.mem_cons_of_mem _ hb)) quorum

/-- The stored entry of an acceptor carries its vote. -/
theorem stored_vote_valued {vote : Option FastVote} (nonneg : 0 ≤ iid)
    (fast : ∀ x, vote = some x → 0 ≤ x.ballot) :
    (clearedPromise.store (FastVote.promise iid ballot vote)).Valued ↔ vote.isSome := by
  cases vote with
  | none => simp [PromiseInfo.Valued, PromiseInfo.store, FastVote.promise]
  | some x =>
      have := fast x rfl
      simp only [PromiseInfo.Valued, PromiseInfo.store, FastVote.promise, Option.isSome_some,
        iff_true]
      omega

theorem stored_vote_eq (iid ballot : Int) {x : FastVote} (fast : 0 ≤ x.ballot) :
    (clearedPromise.store (FastVote.promise iid ballot (some x))).valueBallot = x.ballot ∧
      (clearedPromise.store (FastVote.promise iid ballot (some x))).value = some x.value := by
  have hne : x.ballot ≠ -1 := by omega
  simp [PromiseInfo.store, FastVote.promise, hne, memcpy_length]

theorem VotesStored.valued {acceptors : List Nat}
    (h : VotesStored cfg round iid ballot s acceptors) (nonneg : 0 ≤ iid) {a : Nat}
    (bound : a < cfg.nOfAcceptors)
    (valued : ((s.slot cfg iid).promises a).Valued) :
    a ∈ acceptors ∧ ∃ x, round.vote a = some x ∧
      ((s.slot cfg iid).promises a).valueBallot = x.ballot ∧
      ((s.slot cfg iid).promises a).value = some x.value := by
  by_cases ha : a ∈ acceptors
  · rw [h.stored a ha] at valued ⊢
    obtain ⟨x, hx⟩ := Option.isSome_iff_exists.mp
      ((stored_vote_valued nonneg fun _ => round.ballot_nonneg).mp valued)
    rw [hx]
    obtain ⟨hb, hv⟩ := stored_vote_eq iid ballot (round.ballot_nonneg hx)
    exact ⟨ha, x, rfl, hb, hv⟩
  · rw [h.missing a bound ha] at valued
    exact absurd rfl valued.1

theorem VotesStored.entry {acceptors : List Nat}
    (h : VotesStored cfg round iid ballot s acceptors) (nonneg : 0 ≤ iid) {a : Nat}
    (ha : a ∈ acceptors) {x : FastVote} (hx : round.vote a = some x) :
    ((s.slot cfg iid).promises a).Valued ∧
      ((s.slot cfg iid).promises a).valueBallot = x.ballot := by
  have fast := round.ballot_nonneg hx
  rw [h.stored a ha, hx]
  refine ⟨(stored_vote_valued nonneg ?_).mpr rfl, (stored_vote_eq iid ballot fast).1⟩
  intro y hy
  cases hy
  exact fast

/-- The leader picks a vote that no other vote stands above. -/
theorem VotesStored.picked {acceptors : List Nat}
    (h : VotesStored cfg round iid ballot s acceptors) (nonneg : 0 ≤ iid)
    (bound : ∀ a ∈ acceptors, a < cfg.nOfAcceptors) {pi : PromiseInfo}
    (hpi : phase2Value cfg (s.slot cfg iid) = some pi) :
    ∃ b ∈ acceptors, ∃ y, round.vote b = some y ∧ pi.value = some y.value ∧
      ∀ a ∈ acceptors, ∀ x, round.vote a = some x → x.ballot ≤ y.ballot := by
  obtain ⟨⟨b, hbound, hb⟩, hvalued, hmax⟩ := phase2Value_spec hpi
  subst hb
  obtain ⟨hmem, y, hy, hballot, hvalue⟩ :=
    h.valued nonneg hbound hvalued
  refine ⟨b, hmem, y, hy, hvalue, ?_⟩
  intro a ha x hx
  obtain ⟨havalued, haballot⟩ := h.entry nonneg ha hx
  have hle := hmax a (bound a ha) havalued
  rw [haballot, hballot] at hle
  exact hle

end Votes

/-- After the promises of any quorum, in any order, the leader picks the chosen value
exactly when no vote of that quorum for another value stands above those for it. -/
theorem phase2Value_keeps_chosen_iff {cfg : Config} (round : FastRound cfg) {v : Bytes}
    (chosen : round.Chosen v) {s : LeaderState} {iid ballot : Int} (nonneg : 0 ≤ iid)
    (awaiting : s.Awaiting cfg iid ballot) {acceptors : List Nat} (distinct : acceptors.Nodup)
    (bound : ∀ a ∈ acceptors, a < cfg.nOfAcceptors)
    (quorum : (acceptors.length : Int) = cfg.quorum) :
    (∃ pi, phase2Value cfg ((handleVotes cfg round iid ballot s acceptors).slot cfg iid) =
        some pi ∧ pi.value = some v) ↔ round.Uncontested v acceptors := by
  have hstart : VotesStored cfg round iid ballot s [] := by
    refine ⟨awaiting.iid_eq, fun _ => awaiting.pending, awaiting.ballot_eq,
      awaiting.promiseCount_eq, ?_, fun a ha _ => awaiting.cleared a ha⟩
    intro a ha
    cases ha
  have hstored := votes_stored acceptors hstart (by simpa using distinct)
    bound (by simp [quorum])
  rw [List.nil_append] at hstored
  generalize handleVotes cfg round iid ballot s acceptors = t at hstored ⊢
  constructor
  · intro ⟨pi, hpi, hvalue⟩ a ha x hx hne
    obtain ⟨b, hb, y, hy, hyvalue, hmax⟩ := hstored.picked nonneg bound hpi
    have hyv : y.value = v := by
      rw [hvalue] at hyvalue
      exact (Option.some.inj hyvalue).symm
    have hle := hmax a ha x hx
    have hneq : x.ballot ≠ y.ballot := by
      intro heq
      exact hne ((round.one_value a b x y hx hy heq).trans hyv)
    exact ⟨b, hb, y, hy, hyv, by omega⟩
  · intro uncontested
    obtain ⟨c, hc, z, hz, -⟩ := round.voter_of_chosen chosen distinct bound quorum
    cases hpi : phase2Value cfg (t.slot cfg iid) with
    | none =>
        -- the voter of that quorum has an entry with a value
        exact absurd (hstored.entry nonneg hc hz).1 (phase2Value_eq_none.mp hpi c (bound c hc))
    | some pi =>
        refine ⟨pi, rfl, ?_⟩
        obtain ⟨b, hb, y, hy, hyvalue, hmax⟩ := hstored.picked nonneg bound hpi
        rw [hyvalue]
        by_cases hyv : y.value = v
        · rw [hyv]
        · obtain ⟨d, hd, w, hw, -, hlt⟩ := uncontested b hb y hy hyv
          have hle := hmax d hd w hw
          omega

def unanimousRound : FastRound .shipped where
  vote := fun _ => some { ballot := 11, value := [7] }
  fast_ballot := by
    intro a x hx
    cases hx
    decide
  one_value := by
    intro a b x y hx hy _
    cases hx
    cases hy
    rfl

theorem unanimousRound_chosen : unanimousRound.Chosen [7] := by
  change (3 : Int) ≤ _
  decide

theorem leaderInit_awaiting : (leaderInit .shipped 0).Awaiting .shipped 0 20 :=
  ⟨by decide +kernel, by decide +kernel, by decide +kernel, by decide +kernel,
    by decide +kernel⟩

theorem phase2Value_keeps_chosen_unanimous :
    ∃ pi, phase2Value .shipped ((handleVotes .shipped unanimousRound 0 20
      (leaderInit .shipped 0) [2, 0, 1]).slot .shipped 0) = some pi ∧ pi.value = some [7] :=
  (phase2Value_keeps_chosen_iff unanimousRound unanimousRound_chosen (by decide)
    leaderInit_awaiting (by decide) (by decide) (by decide)).mpr
      (unanimousRound.uncontested_of_three (by decide) unanimousRound_chosen (by decide))

/-- Four acceptors; proposer 2 collides with the value of proposer 1. -/
def fourAcceptors : Config :=
  { Config.shipped with nOfAcceptors := 4, nOfAcceptors_pos := by decide }

def collidingRound : FastRound fourAcceptors where
  vote := fun a => if a = 3 then some { ballot := 12, value := [8] }
    else some { ballot := 11, value := [7] }
  fast_ballot := by
    intro a x hx
    split at hx <;> cases hx <;> decide
  one_value := by
    intro a b x y hx hy heq
    split at hx <;> split at hy <;> cases hx <;> cases hy <;> first | rfl | cases heq

theorem collidingRound_overrides_chosen :
    collidingRound.Chosen [7] ∧
      ¬ ∃ pi, phase2Value fourAcceptors ((handleVotes fourAcceptors collidingRound 0 20
        (leaderInit fourAcceptors 0) [0, 1, 3]).slot fourAcceptors 0) = some pi ∧
          pi.value = some [7] := by
  have hpick : (phase2Value fourAcceptors ((handleVotes fourAcceptors collidingRound 0 20
      (leaderInit fourAcceptors 0) [0, 1, 3]).slot fourAcceptors 0)).map PromiseInfo.value =
        some (some [8]) := by decide +kernel
  constructor
  · change (3 : Int) ≤ _
    decide
  · intro ⟨pi, hpi, hv⟩
    rw [hpi, Option.map_some, hv] at hpick
    exact absurd hpick (by decide)

end LibFastPaxos
