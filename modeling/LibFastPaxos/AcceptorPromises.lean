import LibFastPaxos.AcceptorRuns

/-!
Does an accept respect the promises made for its instance? The stored ballot
goes down when a fast accept answers an anyval, and `any_enabled` outlives later
prepares, the instance it was set for and the trip to disk. An accept respects
the promises in every run in which neither of the two misleads the tests.
-/

namespace LibFastPaxos

open Transition History

/-- The ballot a debug line records for an instance. -/
def LogLine.ballotFor (iid : Int) : LogLine → Option Int
  | .promised p => if p.iid = iid then some p.ballot else none
  | .acceptApplied m => if m.iid = iid then some m.ballot else none
  | .anyvalApplied i b => if i = iid then some b else none

/-- A ballot the acceptor promised, enabled for any value or accepted. -/
def Recorded (log : List LogLine) (iid c : Int) : Prop :=
  ∃ line ∈ log, line.ballotFor iid = some c

def Promised (log : List LogLine) (iid c : Int) : Prop :=
  ∃ p, LogLine.promised p ∈ log ∧ p.iid = iid ∧ p.ballot = c

def NoAccept (log : List LogLine) (iid : Int) : Prop :=
  ∀ m, LogLine.acceptApplied m ∈ log → m.iid ≠ iid

/-- The ballot is a leader's and no lower than anything recorded for the instance. -/
def RespectsBallots (cfg : Config) (log : List LogLine) (amsg : AcceptMsg) : Prop :=
  cfg.minBallot ≤ amsg.ballot ∧ ∀ c, Recorded log amsg.iid c → c ≤ amsg.ballot

/-- An anyval of the instance, above everything promised, is still unanswered. -/
def OpenFor (log : List LogLine) (iid : Int) : Prop :=
  ∃ newer older ballot, log = newer ++ .anyvalApplied iid ballot :: older ∧
    NoAccept newer iid ∧ ∀ c, Promised log iid c → c ≤ ballot

/-- The accept, applied after `log`, respects the promises of its instance. -/
def RespectsPromises (cfg : Config) (line : LogLine) (log : List LogLine) : Prop :=
  ∀ amsg, line = .acceptApplied amsg → RespectsBallots cfg log amsg ∨ OpenFor log amsg.iid

/-- The newest debug line about the instance. -/
def lastLine (iid : Int) (log : List LogLine) : Option LogLine :=
  log.find? fun line => (line.ballotFor iid).isSome

/-- The last thing applied for the instance is an anyval. -/
def LastIsAnyval (log : List LogLine) (iid : Int) : Prop :=
  ∃ ballot, lastLine iid log = some (.anyvalApplied iid ballot)

/-- The ballot of the record of the instance. -/
def latestBallot (iid : Int) (log : List LogLine) : Option Int :=
  log.findSome? (LogLine.ballotFor iid)

/-- A lower ballot once replaced `c` in the record of the instance. -/
def Lowered (log : List LogLine) (iid c : Int) : Prop :=
  ∃ newer line older b, log = newer ++ line :: older ∧ line.ballotFor iid = some b ∧
    latestBallot iid older = some c ∧ b < c

/-- A ballot that passes the ballot test is not below a ballot that the record has
lost, and when only `any_enabled` lets the message pass, the last thing applied for
the instance has set it. -/
def TestSound (passes : Prop) (log : List LogLine) (iid ballot : Int) (r : AcceptorRecord) :
    Prop :=
  (passes → ∀ c, Lowered log iid c → c ≤ ballot) ∧
    (¬ passes → r.anyEnabled = true → LastIsAnyval log iid)

/-- No test of `handle_accept` or `handle_anyval` is misled. -/
def TestsSound (cfg : Config) (env : DiskEnv) (s : AcceptorState) : AcceptorOp → Prop
  | .accept amsg => ∀ r, readRecord cfg env s amsg.iid = some r →
      TestSound (r.ballot ≤ amsg.ballot ∧ cfg.minBallot ≤ amsg.ballot) s.log amsg.iid
        amsg.ballot r
  | .anyval iid ballot => ∀ r, readRecord cfg env s iid = some r →
      TestSound (r.ballot ≤ ballot) s.log iid ballot r
  | .prepare _ | .lsync _ => True

section Log

variable {log : List LogLine} {iid c : Int} {line : LogLine}

theorem recorded_cons :
    Recorded (line :: log) iid c ↔ line.ballotFor iid = some c ∨ Recorded log iid c := by
  simp [Recorded]

theorem Promised.recorded (h : Promised log iid c) : Recorded log iid c := by
  obtain ⟨p, hp, hi, hb⟩ := h
  exact ⟨_, hp, by simp [LogLine.ballotFor, hi, hb]⟩

theorem promised_cons_of_not_promise (h : ∀ p, line ≠ .promised p) :
    Promised (line :: log) iid c ↔ Promised log iid c := by
  constructor
  · intro ⟨p, hp, hi, hb⟩
    cases List.mem_cons.mp hp with
    | inl heq => exact absurd heq.symm (h p)
    | inr hmem => exact ⟨p, hmem, hi, hb⟩
  · intro ⟨p, hp, hi, hb⟩
    exact ⟨p, List.mem_cons_of_mem _ hp, hi, hb⟩

theorem lastLine_cons_of_none (h : line.ballotFor iid = none) :
    lastLine iid (line :: log) = lastLine iid log := by
  simp [lastLine, h]

theorem lastLine_cons_of_some (h : line.ballotFor iid = some c) :
    lastLine iid (line :: log) = some line := by
  simp [lastLine, h]

theorem latestBallot_cons :
    latestBallot iid (line :: log) = (line.ballotFor iid).or (latestBallot iid log) := by
  rw [latestBallot, List.findSome?_cons]
  cases line.ballotFor iid <;> rfl

theorem latestBallot_eq_none : latestBallot iid log = none ↔ ∀ c, ¬ Recorded log iid c := by
  rw [latestBallot, List.findSome?_eq_none_iff]
  constructor
  · intro h c ⟨l, hl, hc⟩
    rw [h l hl] at hc
    cases hc
  · intro h l hl
    cases hc : l.ballotFor iid with
    | none => rfl
    | some c => exact absurd ⟨l, hl, hc⟩ (h c)

theorem Lowered.recorded (h : Lowered log iid c) : Recorded log iid c := by
  obtain ⟨newer, l, older, b, rfl, -, hc, -⟩ := h
  rw [latestBallot, List.findSome?_eq_some_iff] at hc
  obtain ⟨_, line, _, rfl, hline, -⟩ := hc
  exact ⟨line, by simp, hline⟩

theorem Lowered.cons (h : Lowered log iid c) : Lowered (line :: log) iid c := by
  obtain ⟨newer, l, older, b, hlog, hb, hc, hlt⟩ := h
  exact ⟨line :: newer, l, older, b, by rw [hlog]; rfl, hb, hc, hlt⟩

/-- A recorded ballot above the record's own has been lost to a lower one. -/
theorem Recorded.le_latest (h : Recorded log iid c) :
    ∃ b, latestBallot iid log = some b ∧ (c ≤ b ∨ ∃ d, Lowered log iid d ∧ c ≤ d) := by
  induction log with
  | nil =>
      obtain ⟨l, hl, -⟩ := h
      cases hl
  | cons line log ih =>
      rw [latestBallot_cons]
      cases hline : line.ballotFor iid with
      | none =>
          rw [recorded_cons, hline] at h
          obtain ⟨b, hb, hle⟩ := ih (h.resolve_left (by simp))
          exact ⟨b, hb, hle.imp_right fun ⟨d, hd, hc⟩ => ⟨d, hd.cons, hc⟩⟩
      | some e =>
          refine ⟨e, rfl, ?_⟩
          rw [recorded_cons, hline] at h
          cases h with
          | inl heq =>
              left
              cases heq
              exact Int.le_refl c
          | inr hrec =>
              obtain ⟨b, hb, hle | ⟨d, hd, hc⟩⟩ := ih hrec
              · by_cases hlt : e < b
                · exact .inr ⟨b, ⟨[], line, log, e, rfl, hline, hb, hlt⟩, hle⟩
                · left
                  omega
              · exact .inr ⟨d, hd.cons, hc⟩

/-- A line that is no accept of the instance and no promise for it leaves it open. -/
theorem OpenFor.cons (h : OpenFor log iid)
    (noAccept : ∀ m, line = .acceptApplied m → m.iid ≠ iid)
    (noPromise : ∀ p, line = .promised p → p.iid ≠ iid) : OpenFor (line :: log) iid := by
  obtain ⟨newer, older, ballot, hlog, hnewer, hbound⟩ := h
  refine ⟨line :: newer, older, ballot, by rw [hlog]; rfl, ?_, ?_⟩
  · intro m hm
    cases List.mem_cons.mp hm with
    | inl heq => exact noAccept m heq.symm
    | inr hmem => exact hnewer m hmem
  · intro c ⟨p, hp, hi, hb⟩
    cases List.mem_cons.mp hp with
    | inl heq => exact absurd hi (noPromise p heq.symm)
    | inr hmem => exact hbound c ⟨p, hmem, hi, hb⟩

end Log

/-- What a run with sound tests keeps true of the store and the debug log. -/
structure PromisesKept (cfg : Config) (stored : Int → Option FlatRecord) (log : List LogLine) :
    Prop where
  latest : ∀ iid, (stored iid).map FlatRecord.ballot = latestBallot iid log
  opened : ∀ iid, LastIsAnyval log iid → OpenFor log iid
  respected : Along (RespectsPromises cfg) log

section Preservation

variable {cfg : Config} {env : DiskEnv} {s t : AcceptorState}

theorem latest_update {stored : Int → Option FlatRecord} {log : List LogLine} {line : LogLine}
    {iid : Int} {f : FlatRecord}
    (latest : ∀ i, (stored i).map FlatRecord.ballot = latestBallot i log)
    (own : line.ballotFor iid = some f.ballot) (other : ∀ i, i ≠ iid → line.ballotFor i = none) :
    ∀ i, (Function.update stored iid (some f) i).map FlatRecord.ballot =
      latestBallot i (line :: log) := by
  intro i
  rw [latestBallot_cons]
  by_cases h : i = iid
  · subst h
    simp [own]
  · rw [Function.update_of_ne h, other i h]
    simpa using latest i

theorem opened_of_prepare {log : List LogLine} {p : PromiseMsg}
    (opened : ∀ i, LastIsAnyval log i → OpenFor log i) :
    ∀ i, LastIsAnyval (.promised p :: log) i → OpenFor (.promised p :: log) i := by
  intro i ⟨ballot, hlast⟩
  by_cases h : p.iid = i
  · rw [lastLine_cons_of_some (c := p.ballot) (by simp [LogLine.ballotFor, h])] at hlast
    cases hlast
  · rw [lastLine_cons_of_none (by simp [LogLine.ballotFor, h])] at hlast
    refine (opened i ⟨ballot, hlast⟩).cons (by intro m hm; cases hm) ?_
    intro q hq
    cases hq
    exact h

theorem opened_of_accept {log : List LogLine} {amsg : AcceptMsg}
    (opened : ∀ i, LastIsAnyval log i → OpenFor log i) :
    ∀ i, LastIsAnyval (.acceptApplied amsg :: log) i → OpenFor (.acceptApplied amsg :: log) i := by
  intro i ⟨ballot, hlast⟩
  by_cases h : amsg.iid = i
  · rw [lastLine_cons_of_some (c := amsg.ballot) (by simp [LogLine.ballotFor, h])] at hlast
    cases hlast
  · rw [lastLine_cons_of_none (by simp [LogLine.ballotFor, h])] at hlast
    refine (opened i ⟨ballot, hlast⟩).cons ?_ (by intro p hp; cases hp)
    intro m hm
    cases hm
    exact h

/-- A ballot that passes a sound ballot test is above everything recorded. -/
theorem recorded_le_of_passes (coh : s.Coherent cfg) (kept : PromisesKept cfg s.stored s.log)
    {iid ballot : Int} (nonneg : 0 ≤ iid) {r : AcceptorRecord}
    (read : readRecord cfg env s iid = some r) (passes : r.ballot ≤ ballot)
    (above : ∀ c, Lowered s.log iid c → c ≤ ballot) :
    ∀ c, Recorded s.log iid c → c ≤ ballot := by
  intro c hc
  obtain ⟨b, hb, hle⟩ := hc.le_latest
  have hlatest := kept.latest iid
  rw [(coh.read_some nonneg read).stored, hb] at hlatest
  have hrb : r.ballot = b := Option.some.inj hlatest
  cases hle with
  | inl h => omega
  | inr hand =>
      obtain ⟨d, hd, hcd⟩ := hand
      exact Int.le_trans hcd (above d hd)

theorem not_recorded_of_absent (coh : s.Coherent cfg) (kept : PromisesKept cfg s.stored s.log)
    {iid : Int} (read : readRecord cfg env s iid = none) : ∀ c, ¬ Recorded s.log iid c := by
  rw [← latestBallot_eq_none, ← kept.latest iid, coh.read_none read]
  rfl

/-- An anyval let through by its ballot is above every promise; one let through by
`any_enabled` alone finds the instance open already. -/
theorem open_of_anyval (coh : s.Coherent cfg) (kept : PromisesKept cfg s.stored s.log)
    {iid ballot : Int} (nonneg : 0 ≤ iid)
    (applied : AnyvalApplied ballot (readRecord cfg env s iid))
    (sound : TestsSound cfg env s (.anyval iid ballot)) :
    OpenFor (.anyvalApplied iid ballot :: s.log) iid := by
  have fresh : (∀ c, Recorded s.log iid c → c ≤ ballot) →
      OpenFor (.anyvalApplied iid ballot :: s.log) iid := by
    intro above
    refine ⟨[], s.log, ballot, rfl, by intro m hm; simp at hm, ?_⟩
    intro c hc
    rw [promised_cons_of_not_promise (by intro p hp; cases hp)] at hc
    exact above c hc.recorded
  cases hr : readRecord cfg env s iid with
  | none =>
      apply fresh
      intro c hc
      exact absurd hc (not_recorded_of_absent coh kept hr c)
  | some r =>
      obtain ⟨high, flagged⟩ := sound r hr
      by_cases hb : r.ballot ≤ ballot
      · exact fresh (recorded_le_of_passes coh kept nonneg hr hb (high hb))
      · have hflag : r.anyEnabled = true := by
          rw [hr] at applied
          exact applied.resolve_right hb
        exact (kept.opened iid (flagged hb hflag)).cons (by intro m hm; cases hm)
          (by intro p hp; cases hp)

theorem respects_of_accept (coh : s.Coherent cfg) (kept : PromisesKept cfg s.stored s.log)
    {amsg : AcceptMsg} (nonneg : 0 ≤ amsg.iid)
    (applied : amsg.Applied cfg (readRecord cfg env s amsg.iid))
    (sound : TestsSound cfg env s (.accept amsg)) :
    RespectsPromises cfg (.acceptApplied amsg) s.log := by
  intro m hm
  cases hm
  cases hr : readRecord cfg env s amsg.iid with
  | none =>
      left
      rw [hr] at applied
      exact ⟨applied, fun c hc => absurd hc (not_recorded_of_absent coh kept hr c)⟩
  | some r =>
      rw [hr] at applied
      obtain ⟨high, flagged⟩ := sound r hr
      by_cases hb : r.ballot ≤ amsg.ballot ∧ cfg.minBallot ≤ amsg.ballot
      · left
        exact ⟨hb.2, recorded_le_of_passes coh kept nonneg hr hb.1 (high hb)⟩
      · right
        exact kept.opened amsg.iid (flagged hb (applied.resolve_right hb))

theorem PromisesKept.step {op : AcceptorOp} (coh : s.Coherent cfg) (wf : op.WellFormed)
    (kept : PromisesKept cfg s.stored s.log) (sound : TestsSound cfg env s op)
    (outcome : OpOutcome cfg env s op t) : PromisesKept cfg t.stored t.log := by
  cases outcome with
  | @promised msg _ granted stored log =>
      have hiid := coh.image_iid msg
      rw [stored, log]
      refine ⟨latest_update kept.latest ?_ ?_, opened_of_prepare kept.opened, ?_,
        kept.respected⟩
      · simp [LogLine.ballotFor, FlatRecord.promise, hiid]
      · intro i hi
        simp [LogLine.ballotFor, FlatRecord.promise, hiid, Ne.symm hi]
      · intro m hm
        cases hm
  | accepted applied stored log sent =>
      rw [stored, log]
      refine ⟨latest_update kept.latest ?_ ?_, opened_of_accept kept.opened,
        respects_of_accept coh kept wf.iid_nonneg applied sound, kept.respected⟩
      · simp [LogLine.ballotFor, AcceptMsg.image]
      · intro i hi
        simp [LogLine.ballotFor, Ne.symm hi]
  | @opened iid ballot _ applied stored log sent =>
      rw [stored, log]
      refine ⟨latest_update kept.latest ?_ ?_, ?_, ?_, kept.respected⟩
      · simp [LogLine.ballotFor, anyvalImage]
      · intro i hi
        simp [LogLine.ballotFor, Ne.symm hi]
      · rintro i ⟨b, hlast⟩
        by_cases h : iid = i
        · subst h
          exact open_of_anyval coh kept wf.1 applied sound
        · rw [lastLine_cons_of_none (by simp [LogLine.ballotFor, h])] at hlast
          exact (kept.opened i ⟨b, hlast⟩).cons (by intro m hm; cases hm) (by intro p hp; cases hp)
      · intro m hm
        cases hm
  | answered read value stored log sent =>
      rw [stored, log]
      exact kept
  | ignored stored log sent =>
      rw [stored, log]
      exact kept

end Preservation

theorem promises_kept {cfg : Config} {env : DiskEnv} (puts : env.PutsSucceed) {s : AcceptorState}
    (h : Reachable (acceptorSystem cfg env) (MessageMeets cfg env (TestsSound cfg env)) s) :
    PromisesKept cfg s.stored s.log := by
  refine store_invariant puts (PromisesKept cfg) ⟨?_, ?_, trivial⟩ ?_ h
  · intro iid
    rfl
  · intro iid ⟨ballot, hlast⟩
    simp [lastLine] at hlast
  · intro s op t coh wf kept sound outcome
    exact kept.step coh wf sound outcome

/-- Every accept applied in a run with sound tests respects the promises of its instance. -/
theorem accept_respects_promises {cfg : Config} {env : DiskEnv} (puts : env.PutsSucceed)
    {s : AcceptorState}
    (h : Reachable (acceptorSystem cfg env) (MessageMeets cfg env (TestsSound cfg env)) s) :
    Along (RespectsPromises cfg) s.log :=
  (promises_kept puts h).respected

def fastRoundRun : List PaxosMsg :=
  [preparePacket [⟨0, 20⟩], anyvalPacket 20 [0], acceptPacket ⟨0, 11, 1, 1, [7]⟩]

theorem fastRoundRun_sound :
    RunMeets .shipped quietDisk (TestsSound .shipped quietDisk) (acceptorStart 0)
      fastRoundRun := by
  refine ⟨⟨by decide, ⟨trivial, fun _ _ => trivial⟩⟩, fun t ht => ?_⟩
  obtain rfl := Option.some.inj ht
  refine ⟨⟨by decide, ⟨?_, fun _ _ => trivial⟩⟩, fun t ht => ?_⟩
  · intro r hr
    obtain rfl := Option.some.inj hr
    refine ⟨fun _ c hc => ?_, fun h => absurd (by decide) h⟩
    obtain ⟨line, hline, hb⟩ := hc.recorded
    obtain rfl := List.mem_singleton.mp hline
    cases hb
    decide
  · obtain rfl := Option.some.inj ht
    refine ⟨⟨by decide, ⟨?_, fun _ _ => trivial⟩⟩, fun _ _ => trivial⟩
    intro r hr
    obtain rfl := Option.some.inj hr
    exact ⟨fun h => absurd h (by decide), fun _ _ => ⟨20, rfl⟩⟩

theorem accept_respects_promises_fastRound :
    ∃ s, runMessages .shipped quietDisk (acceptorStart 0) fastRoundRun = some s ∧
      Along (RespectsPromises .shipped) s.log := by
  have run : runMessages .shipped quietDisk (acceptorStart 0) fastRoundRun = some _ := rfl
  exact ⟨_, run, accept_respects_promises quietDisk_putsSucceed
    (reachable_run (.init ⟨0, rfl⟩) fastRoundRun_sound run)⟩

/-- A promise for ballot 30 follows the anyval, and the fast accept is applied all the same. -/
def staleFlagRun : List PaxosMsg :=
  [preparePacket [⟨0, 20⟩], anyvalPacket 20 [0], preparePacket [⟨0, 30⟩],
    acceptPacket ⟨0, 11, 1, 1, [7]⟩]

theorem staleFlagRun_breaks_promise :
    (∀ msg ∈ staleFlagRun, msg.data.WellFormed) ∧
      ∃ s, runMessages .shipped quietDisk (acceptorStart 0) staleFlagRun = some s ∧
        ¬ Along (RespectsPromises .shipped) s.log := by
  refine ⟨by decide, _, rfl, fun along => ?_⟩
  have hrun : RespectsPromises .shipped (.acceptApplied ⟨0, 11, 1, 1, [7]⟩)
      [.promised ⟨0, 30, -1, 0, []⟩, .anyvalApplied 0 20, .promised ⟨0, 20, -1, 0, []⟩] := along.1
  cases hrun _ rfl with
  | inl hand =>
      obtain ⟨high, -⟩ := hand
      exact absurd high (by decide)
  | inr hand =>
      obtain ⟨newer, older, ballot, hlog, -, hbound⟩ := hand
      have h30 : 30 ≤ ballot := hbound 30 ⟨_, List.mem_cons_self, rfl, rfl⟩
      have hmem : LogLine.anyvalApplied 0 ballot ∈
          [LogLine.promised ⟨0, 30, -1, 0, []⟩, .anyvalApplied 0 20,
            .promised ⟨0, 20, -1, 0, []⟩] := by
        rw [hlog]
        simp
      simp only [List.mem_cons, reduceCtorEq, LogLine.anyvalApplied.injEq, List.not_mem_nil,
        false_or, or_false, true_and] at hmem
      omega

end LibFastPaxos
