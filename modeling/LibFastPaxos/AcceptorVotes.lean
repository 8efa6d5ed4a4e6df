import LibFastPaxos.AcceptorSends

/-!
The votes of an acceptor. As long as no anyval and no accept that fails the
ballot test touches a record with a value, the accepts of an instance go up in
ballot after the first, only the first can be fast, and a promise with a value
seals everything below its ballot.
-/

namespace LibFastPaxos

open Transition History

/-- No accept that only `any_enabled` lets through replaces an accepted value. -/
def KeepsVote (cfg : Config) (env : DiskEnv) (s : AcceptorState) : AcceptorOp → Prop
  | .accept amsg => ∀ r, readRecord cfg env s amsg.iid = some r → r.anyEnabled = true →
      r.valueBallot ≠ -1 → r.ballot ≤ amsg.ballot ∧ cfg.minBallot ≤ amsg.ballot
  | .prepare _ | .lsync _ | .anyval _ _ => True

instance (cfg : Config) (env : DiskEnv) (s : AcceptorState) :
    (op : AcceptorOp) → Decidable (KeepsVote cfg env s op)
  | .accept amsg => inferInstanceAs (Decidable (∀ r, readRecord cfg env s amsg.iid = some r → _))
  | .prepare _ | .lsync _ | .anyval _ _ => isTrue trivial

/-- Below the ballot of the promise nothing is accepted above the value it reports. -/
structure PromiseMsg.Sealed (stored : Int → Option FlatRecord) (log : List LogLine)
    (p : PromiseMsg) : Prop where
  raised : ∃ f, stored p.iid = some f ∧ p.ballot ≤ f.ballot
  below : p.valueBallot < p.ballot
  highest : ∀ m, LogLine.acceptApplied m ∈ log → m.iid = p.iid → m.ballot < p.ballot →
    m.ballot ≤ p.valueBallot

/-- An accept is not below a promise before it that reported a value. -/
def AboveSeals (line : LogLine) (older : List LogLine) : Prop :=
  ∀ m p, line = .acceptApplied m → LogLine.promised p ∈ older → p.iid = m.iid →
    p.valueBallot ≠ -1 → p.ballot ≤ m.ballot

structure VotesSealed (cfg : Config) (stored : Int → Option FlatRecord) (log : List LogLine) :
    Prop where
  voted : ∀ m, LogLine.acceptApplied m ∈ log → 0 ≤ m.ballot ∧
    ∃ f, stored m.iid = some f ∧ m.ballot ≤ f.valueBallot ∧ f.valueBallot ≤ f.ballot
  one_fast : ∀ m m', LogLine.acceptApplied m ∈ log → LogLine.acceptApplied m' ∈ log →
    m.iid = m'.iid → m.ballot < cfg.minBallot → m'.ballot < cfg.minBallot → m = m'
  sealed : ∀ p, LogLine.promised p ∈ log → p.valueBallot ≠ -1 → p.Sealed stored log
  ordered : Along AboveSeals log

section Preservation

variable {cfg : Config} {env : DiskEnv} {s t : AcceptorState}
  {stored : Int → Option FlatRecord} {log : List LogLine} {iid : Int}

/-- Nothing was accepted for an instance whose record has no value. -/
theorem VotesSealed.unvoted (h : VotesSealed cfg stored log)
    (blank : ∀ f, stored iid = some f → f.valueBallot = -1) {m : AcceptMsg}
    (hm : LogLine.acceptApplied m ∈ log) : m.iid ≠ iid := by
  intro heq
  subst heq
  obtain ⟨hnonneg, f, hf, hle, -⟩ := h.voted m hm
  have := blank f hf
  omega

theorem VotesSealed.unreported (h : VotesSealed cfg stored log) (backed : PromisesBacked log)
    (blank : ∀ f, stored iid = some f → f.valueBallot = -1) {p : PromiseMsg}
    (hp : LogLine.promised p ∈ log) (valued : p.valueBallot ≠ -1) : p.iid ≠ iid := by
  obtain ⟨m, hm, hiid, -⟩ := (backed p hp).reports valued
  intro heq
  exact h.unvoted blank hm (hiid.trans heq)

/-- The old lines about an instance with a value after its record is written with no
lower ballot. -/
theorem PromiseMsg.Sealed.update {p : PromiseMsg} (h : p.Sealed stored log) {f : FlatRecord}
    (own : p.iid = iid → ∀ g, stored iid = some g → g.ballot ≤ f.ballot) {line : LogLine}
    (accepts : ∀ m, line = .acceptApplied m → m.iid = p.iid → p.ballot ≤ m.ballot) :
    p.Sealed (Function.update stored iid (some f)) (line :: log) := by
  refine ⟨?_, h.below, ?_⟩
  · obtain ⟨g, hg, hle⟩ := h.raised
    by_cases hi : p.iid = iid
    · refine ⟨f, by rw [hi, Function.update_self], ?_⟩
      have := own hi g (by rw [← hi]; exact hg)
      omega
    · exact ⟨g, by rw [Function.update_of_ne hi]; exact hg, hle⟩
  · intro m hm hiid hlt
    cases List.mem_cons.mp hm with
    | inl heq =>
        have := accepts m heq.symm hiid
        omega
    | inr hold => exact h.highest m hold hiid hlt

theorem VotesSealed.promise (h : VotesSealed cfg s.stored s.log)
    (held : ValuesHeld s.stored s.log) (coh : s.Coherent cfg) {msg : PrepareMsg}
    (granted : ∀ f, s.stored msg.iid = some f → f.ballot < msg.ballot) :
    VotesSealed cfg
      (Function.update s.stored msg.iid (some (msg.image (s.stored msg.iid))))
      (.promised (msg.image (s.stored msg.iid)).promise :: s.log) := by
  have hiid := coh.image_iid msg
  refine ⟨?_, ?_, ?_, ⟨nofun, h.ordered⟩⟩
  · intro m hm
    obtain ⟨hnonneg, f, hf, hle, hval⟩ := h.voted m (by simpa using hm)
    refine ⟨hnonneg, ?_⟩
    by_cases hi : m.iid = msg.iid
    · refine ⟨_, by rw [hi, Function.update_self], ?_⟩
      rw [hi] at hf
      have := granted f hf
      rw [hf]
      simp only [PrepareMsg.image]
      omega
    · exact ⟨f, by rw [Function.update_of_ne hi]; exact hf, hle, hval⟩
  · intro m m' hm hm'
    exact h.one_fast m m' (by simpa using hm) (by simpa using hm')
  · intro p hp valued
    cases List.mem_cons.mp hp with
    | inl heq =>
        cases heq
        obtain ⟨m, hlast, hvb, -⟩ := held.prepare_image msg valued
        obtain ⟨hm, hmiid⟩ := lastAccept_mem hlast
        obtain ⟨hnonneg, f, hf, hle, hval⟩ := h.voted m hm
        rw [hmiid] at hf
        have hlt := granted f hf
        rw [hf] at hvb ⊢
        have hvb : f.valueBallot = m.ballot := hvb
        rw [hf] at hiid
        have hiid : f.iid = msg.iid := hiid
        refine ⟨⟨_, by rw [show (msg.image (some f)).promise.iid = msg.iid from hiid,
          Function.update_self], Int.le_refl _⟩, ?_, ?_⟩
        · simp only [FlatRecord.promise, PrepareMsg.image]
          omega
        · intro m' hm' hiid' _
          have hm' : LogLine.acceptApplied m' ∈ s.log := by simpa using hm'
          obtain ⟨-, g, hg, hle', -⟩ := h.voted m' hm'
          rw [show m'.iid = msg.iid from hiid'.trans hiid, hf] at hg
          cases hg
          exact hle'
    | inr hold =>
        apply (h.sealed p hold valued).update
        · intro _ g hg
          have := granted g hg
          rw [PrepareMsg.image_ballot]
          omega
        · intro m hm
          cases hm

/-- The record of the instance has no value, or the accept passes the ballot test. -/
def AcceptMsg.Passes (cfg : Config) (stored : Int → Option FlatRecord) (amsg : AcceptMsg) : Prop :=
  (∀ f, stored amsg.iid = some f → f.valueBallot = -1) ∨
    (cfg.minBallot ≤ amsg.ballot ∧ ∀ f, stored amsg.iid = some f → f.ballot ≤ amsg.ballot)

theorem applied_passes (coh : s.Coherent cfg) {amsg : AcceptMsg} (nonneg : 0 ≤ amsg.iid)
    (applied : amsg.Applied cfg (readRecord cfg env s amsg.iid))
    (keeps : KeepsVote cfg env s (.accept amsg)) : amsg.Passes cfg s.stored := by
  cases hr : readRecord cfg env s amsg.iid with
  | none =>
      left
      intro f hf
      rw [coh.read_none hr] at hf
      cases hf
  | some r =>
      rw [hr] at applied
      have hst := (coh.read_some nonneg hr).stored
      rw [AcceptMsg.Passes, hst]
      by_cases hv : r.valueBallot = -1
      · left
        intro f hf
        cases hf
        exact hv
      · right
        have hpass : r.ballot ≤ amsg.ballot ∧ cfg.minBallot ≤ amsg.ballot :=
          applied.elim (fun flag => keeps r hr flag hv) id
        refine ⟨hpass.2, fun f hf => ?_⟩
        cases hf
        exact hpass.1

/-- Every older accept of the instance is at most as high, and none is fast with this one. -/
theorem VotesSealed.older (h : VotesSealed cfg stored log) {amsg : AcceptMsg}
    (passes : amsg.Passes cfg stored) {m : AcceptMsg} (hm : LogLine.acceptApplied m ∈ log)
    (iid : m.iid = amsg.iid) : m.ballot ≤ amsg.ballot ∧ cfg.minBallot ≤ amsg.ballot := by
  cases passes with
  | inl blank => exact absurd iid (h.unvoted blank hm)
  | inr pass =>
      obtain ⟨-, f, hf, hle, hval⟩ := h.voted m hm
      have := pass.2 f (by rw [← iid]; exact hf)
      exact ⟨by omega, pass.1⟩

/-- A promise with a value for the instance leaves the ballot test only. -/
theorem VotesSealed.tested (h : VotesSealed cfg stored log) (backed : PromisesBacked log)
    {amsg : AcceptMsg} (passes : amsg.Passes cfg stored) {p : PromiseMsg}
    (hp : LogLine.promised p ∈ log) (valued : p.valueBallot ≠ -1) (iid : p.iid = amsg.iid) :
    ∀ f, stored amsg.iid = some f → f.ballot ≤ amsg.ballot := by
  cases passes with
  | inl blank => exact absurd iid (h.unreported backed blank hp valued)
  | inr pass => exact pass.2

theorem VotesSealed.above (h : VotesSealed cfg stored log) (backed : PromisesBacked log)
    {amsg : AcceptMsg} (passes : amsg.Passes cfg stored) {p : PromiseMsg}
    (hp : LogLine.promised p ∈ log) (valued : p.valueBallot ≠ -1) (iid : p.iid = amsg.iid) :
    p.ballot ≤ amsg.ballot := by
  obtain ⟨f, hf, hle⟩ := (h.sealed p hp valued).raised
  have := h.tested backed passes hp valued iid f (by rw [← iid]; exact hf)
  omega

theorem VotesSealed.accept (h : VotesSealed cfg stored log) (backed : PromisesBacked log)
    {amsg : AcceptMsg} (wf : amsg.WellFormed) (passes : amsg.Passes cfg stored) :
    VotesSealed cfg (Function.update stored amsg.iid (some amsg.image))
      (.acceptApplied amsg :: log) := by
  refine ⟨?_, ?_, ?_, ⟨?_, h.ordered⟩⟩
  · intro m hm
    by_cases hi : m.iid = amsg.iid
    · have hle : 0 ≤ m.ballot ∧ m.ballot ≤ amsg.ballot := by
        cases List.mem_cons.mp hm with
        | inl heq =>
            cases heq
            exact ⟨wf.ballot_nonneg, Int.le_refl _⟩
        | inr hold => exact ⟨(h.voted m hold).1, (h.older passes hold hi).1⟩
      exact ⟨hle.1, amsg.image, by rw [hi, Function.update_self], hle.2, Int.le_refl _⟩
    · cases List.mem_cons.mp hm with
      | inl heq =>
          cases heq
          exact absurd rfl hi
      | inr hold =>
          obtain ⟨hnonneg, f, hf, hle, hval⟩ := h.voted m hold
          exact ⟨hnonneg, f, by rw [Function.update_of_ne hi]; exact hf, hle, hval⟩
  · intro m m' hm hm' hiid hfast hfast'
    cases List.mem_cons.mp hm with
    | inl heq =>
        cases heq
        cases List.mem_cons.mp hm' with
        | inl heq' =>
            cases heq'
            rfl
        | inr hold' =>
            have := (h.older passes hold' hiid.symm).2
            omega
    | inr hold =>
        cases List.mem_cons.mp hm' with
        | inl heq' =>
            cases heq'
            have := (h.older passes hold hiid).2
            omega
        | inr hold' => exact h.one_fast m m' hold hold' hiid hfast hfast'
  · intro p hp valued
    have hp : LogLine.promised p ∈ log := by simpa using hp
    apply (h.sealed p hp valued).update
    · exact h.tested backed passes hp valued
    · intro m hm hi
      cases hm
      exact h.above backed passes hp valued hi.symm
  · intro m p hm hp hi valued
    cases hm
    exact h.above backed passes hp valued hi

theorem VotesSealed.anyval (h : VotesSealed cfg stored log) (backed : PromisesBacked log)
    {ballot : Int}
    (blank : ∀ f, stored iid = some f → f.valueBallot = -1) :
    VotesSealed cfg (Function.update stored iid (some (anyvalImage iid ballot)))
      (.anyvalApplied iid ballot :: log) := by
  refine ⟨?_, ?_, ?_, ⟨nofun, h.ordered⟩⟩
  · intro m hm
    have hm : LogLine.acceptApplied m ∈ log := by simpa using hm
    rw [Function.update_of_ne (h.unvoted blank hm)]
    exact h.voted m hm
  · intro m m' hm hm'
    exact h.one_fast m m' (by simpa using hm) (by simpa using hm')
  · intro p hp valued
    have hp : LogLine.promised p ∈ log := by simpa using hp
    apply (h.sealed p hp valued).update
    · intro hi
      exact absurd hi (h.unreported backed blank hp valued)
    · intro m hm
      cases hm

theorem VotesSealed.step {op : AcceptorOp} (coh : s.Coherent cfg) (wf : op.WellFormed)
    (held : ValuesHeld s.stored s.log) (backed : PromisesBacked s.log)
    (h : VotesSealed cfg s.stored s.log) (keepsValue : KeepsValue cfg env s op)
    (keepsVote : KeepsVote cfg env s op) (outcome : OpOutcome cfg env s op t) :
    VotesSealed cfg t.stored t.log := by
  cases outcome with
  | promised granted stored log =>
      rw [stored, log]
      exact h.promise held coh granted
  | accepted applied stored log =>
      rw [stored, log]
      exact h.accept backed wf (applied_passes coh wf.iid_nonneg applied keepsVote)
  | @opened iid ballot _ applied stored log =>
      rw [stored, log]
      apply h.anyval backed
      intro f hf
      rw [← coh.read_eq env wf.1] at hf
      obtain ⟨r, hr, rfl⟩ := Option.map_eq_some_iff.mp hf
      rw [hr] at applied
      exact keepsValue r hr applied
  | answered read value stored log | ignored stored log =>
      rw [stored, log]
      exact h

end Preservation

theorem votes_sealed {cfg : Config} {env : DiskEnv} (puts : env.PutsSucceed)
    {cond : AcceptorState → AcceptorOp → Prop}
    (keeps : ∀ s op, cond s op → KeepsValue cfg env s op ∧ KeepsVote cfg env s op)
    {s : AcceptorState}
    (h : Reachable (acceptorSystem cfg env) (MessageMeets cfg env cond) s) :
    VotesSealed cfg s.stored s.log := by
  suffices (ValuesHeld s.stored s.log ∧ PromisesBacked s.log) ∧ VotesSealed cfg s.stored s.log
    from this.2
  refine store_invariant puts (fun stored log =>
    (ValuesHeld stored log ∧ PromisesBacked log) ∧ VotesSealed cfg stored log) ?_ ?_ h
  · refine ⟨held_backed_start, ⟨?_, ?_, ?_, trivial⟩⟩
    · intro m hm
      cases hm
    · intro m m' hm
      cases hm
    · intro p hp
      cases hp
  · intro s op t coh wf ⟨⟨held, backed⟩, sealed⟩ meets outcome
    obtain ⟨keepsValue, keepsVote⟩ := keeps s op meets
    exact ⟨⟨held.step wf outcome, backed.step coh wf held outcome⟩,
      sealed.step coh wf held backed keepsValue keepsVote outcome⟩

end LibFastPaxos
