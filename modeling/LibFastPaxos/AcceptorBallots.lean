import LibFastPaxos.AcceptorBatches
import LibFastPaxos.AcceptorPromises

/-!
Do the ballots an acceptor promises only grow? A prepare is granted above the
ballot of the record, and the record keeps what it has promised as long as
`any_enabled` lets nothing through below it.
-/

namespace LibFastPaxos

open Transition

/-- A message with this ballot that `any_enabled` alone lets through, below the ballot of
the record, is not below a ballot promised for the instance. -/
def FlagKeepsPromises (log : List LogLine) (iid ballot : Int) (r : AcceptorRecord) : Prop :=
  r.anyEnabled = true → ballot < r.ballot → ∀ c, Promised log iid c → c ≤ ballot

/-- The condition at one operation. -/
def KeepsPromised (cfg : Config) (env : DiskEnv) (s : AcceptorState) : AcceptorOp → Prop
  | .accept amsg => ∀ r, readRecord cfg env s amsg.iid = some r →
      FlagKeepsPromises s.log amsg.iid amsg.ballot r
  | .anyval iid ballot => ∀ r, readRecord cfg env s iid = some r →
      FlagKeepsPromises s.log iid ballot r
  | .prepare _ | .lsync _ => True

/-- The newer promise is for another instance or for a higher ballot. -/
def PromiseMsg.Above (newer older : PromiseMsg) : Prop :=
  newer.iid = older.iid → older.ballot < newer.ballot

/-- What a run that meets the condition keeps true of the store and the debug log. -/
structure PromisesGrow (stored : Int → Option FlatRecord) (log : List LogLine) : Prop where
  held : ∀ iid c, Promised log iid c → ∃ f, stored iid = some f ∧ c ≤ f.ballot
  grow : (promisesLogged log).Pairwise PromiseMsg.Above

section Preservation

variable {cfg : Config} {env : DiskEnv} {s t : AcceptorState}

theorem mem_promisesLogged {log : List LogLine} {p : PromiseMsg} :
    p ∈ promisesLogged log ↔ LogLine.promised p ∈ log := by
  simp only [promisesLogged, List.mem_filterMap]
  constructor
  · intro ⟨line, hline, hp⟩
    cases line with
    | promised q =>
        obtain rfl := Option.some.inj hp
        exact hline
    | acceptApplied _ | anyvalApplied _ _ => cases hp
  · intro h
    exact ⟨_, h, rfl⟩

/-- A record that is written with no lower ballot than was promised. -/
theorem PromisesGrow.write {stored : Int → Option FlatRecord} {log : List LogLine}
    (h : PromisesGrow stored log) {line : LogLine} (noPromise : ∀ p, line ≠ .promised p)
    {iid : Int} {f : FlatRecord} (above : ∀ c, Promised log iid c → c ≤ f.ballot) :
    PromisesGrow (Function.update stored iid (some f)) (line :: log) := by
  constructor
  · intro i c hc
    rw [promised_cons_of_not_promise noPromise] at hc
    by_cases hi : i = iid
    · subst hi
      exact ⟨f, Function.update_self _ _ _, above c hc⟩
    · rw [Function.update_of_ne hi]
      exact h.held i c hc
  · have hsame : promisesLogged (line :: log) = promisesLogged log := by
      cases line with
      | promised p => exact absurd rfl (noPromise p)
      | acceptApplied _ | anyvalApplied _ _ => rfl
    rw [hsame]
    exact h.grow

/-- What is applied is not below a promise: for its ballot, or by the condition. -/
theorem PromisesGrow.above_of_applied (h : PromisesGrow s.stored s.log) (coh : s.Coherent cfg)
    {iid ballot : Int} (nonneg : 0 ≤ iid)
    (applied : ∀ r, readRecord cfg env s iid = some r → r.anyEnabled = true ∨ r.ballot ≤ ballot)
    (keeps : ∀ r, readRecord cfg env s iid = some r → FlagKeepsPromises s.log iid ballot r) :
    ∀ c, Promised s.log iid c → c ≤ ballot := by
  intro c hc
  obtain ⟨f, hf, hle⟩ := h.held iid c hc
  cases hr : readRecord cfg env s iid with
  | none =>
      rw [coh.read_none hr] at hf
      cases hf
  | some r =>
      rw [(coh.read_some nonneg hr).stored] at hf
      cases hf
      have hle : c ≤ r.ballot := hle
      by_cases hb : r.ballot ≤ ballot
      · omega
      · exact keeps r hr ((applied r hr).resolve_right hb) (by omega) c hc

theorem PromisesGrow.step {op : AcceptorOp} (coh : s.Coherent cfg) (wf : op.WellFormed)
    (h : PromisesGrow s.stored s.log) (keeps : KeepsPromised cfg env s op)
    (outcome : OpOutcome cfg env s op t) : PromisesGrow t.stored t.log := by
  cases outcome with
  | @promised msg _ granted stored log out =>
      rw [stored, log]
      have hiid := coh.image_iid msg
      have habove : ∀ c, Promised s.log msg.iid c → c < msg.ballot := by
        intro c hc
        obtain ⟨f, hf, hle⟩ := h.held msg.iid c hc
        have := granted f hf
        omega
      constructor
      · intro i c hc
        by_cases hi : i = msg.iid
        · subst hi
          refine ⟨_, Function.update_self _ _ _, ?_⟩
          rw [PrepareMsg.image_ballot]
          obtain ⟨p, hp, hpi, hpb⟩ := hc
          cases List.mem_cons.mp hp with
          | inl heq =>
              cases heq
              rw [← hpb]
              exact Int.le_of_eq (PrepareMsg.image_ballot msg _)
          | inr hold => exact Int.le_of_lt (habove c ⟨p, hold, hpi, hpb⟩)
        · rw [Function.update_of_ne hi]
          obtain ⟨p, hp, hpi, hpb⟩ := hc
          cases List.mem_cons.mp hp with
          | inl heq =>
              cases heq
              exact absurd (hpi.symm.trans hiid) hi
          | inr hold => exact h.held i c ⟨p, hold, hpi, hpb⟩
      · refine List.pairwise_cons.mpr ⟨?_, h.grow⟩
        intro older holder hsame
        have hballot : (msg.image (s.stored msg.iid)).promise.ballot = msg.ballot :=
          PrepareMsg.image_ballot msg _
        have hsame : (msg.image (s.stored msg.iid)).iid = older.iid := hsame
        rw [hballot]
        exact habove _ ⟨older, mem_promisesLogged.mp holder, hsame.symm.trans hiid, rfl⟩
  | @accepted amsg _ applied stored log sent out =>
      rw [stored, log]
      refine h.write (by intro p hp; cases hp) (h.above_of_applied coh wf.iid_nonneg ?_ keeps)
      intro r hr
      rw [hr] at applied
      exact applied.imp_right And.left
  | @opened iid ballot _ applied stored log sent out =>
      rw [stored, log]
      refine h.write (by intro p hp; cases hp) (h.above_of_applied coh wf.1 ?_ keeps)
      intro r hr
      rw [hr] at applied
      exact applied
  | answered read value stored log sent out | ignored stored log sent out =>
      rw [stored, log]
      exact h

end Preservation

theorem promises_grow {cfg : Config} {env : DiskEnv} (puts : env.PutsSucceed) {s : AcceptorState}
    (h : Reachable (acceptorSystem cfg env) (MessageMeets cfg env (KeepsPromised cfg env)) s) :
    PromisesGrow s.stored s.log := by
  refine store_invariant puts PromisesGrow ⟨?_, ?_⟩ ?_ h
  · intro iid c ⟨p, hp, _⟩
    cases hp
  · exact List.Pairwise.nil
  · intro s op t coh wf inv keeps outcome
    exact inv.step coh wf keeps outcome

/-- In a run that meets the condition the promises sent for an instance have growing
ballots, and its record is never below one of them. -/
theorem promised_ballots_grow {cfg : Config} {env : DiskEnv} (puts : env.PutsSucceed)
    {s : AcceptorState}
    (h : Reachable (acceptorSystem cfg env) (MessageMeets cfg env (KeepsPromised cfg env)) s) :
    s.promisesSent.Pairwise PromiseMsg.Above ∧
      ∀ p ∈ s.promisesSent, ∃ r, readRecord cfg env s p.iid = some r ∧ p.ballot ≤ r.ballot := by
  have hgrow := promises_grow puts h
  have hsent : s.promisesSent = promisesLogged s.log := promises_all_sent puts h
  rw [hsent]
  refine ⟨hgrow.grow, ?_⟩
  intro p hp
  have hlogged := mem_promisesLogged.mp hp
  obtain ⟨f, hf, hle⟩ := hgrow.held p.iid p.ballot ⟨p, hlogged, rfl, rfl⟩
  have hcoh : s.Coherent cfg := acceptor_coherent puts h
  rw [← hcoh.read_eq env (hcoh.disk _ f hf).nonneg] at hf
  obtain ⟨r, hr, hflat⟩ := Option.map_eq_some_iff.mp hf
  subst hflat
  exact ⟨r, hr, hle⟩

/-- A fast accept before anything is promised. -/
def unpromisedRun : List PaxosMsg :=
  [anyvalPacket 20 [0], acceptPacket ⟨0, 11, 1, 1, [7]⟩, preparePacket [⟨0, 20⟩],
    preparePacket [⟨0, 30⟩]]

theorem unpromisedRun_keeps :
    RunMeets .shipped quietDisk (KeepsPromised .shipped quietDisk) (acceptorStart 0)
      unpromisedRun := by
  refine ⟨⟨by decide, ⟨?_, fun _ _ => trivial⟩⟩, fun t ht => ?_⟩
  · intro r hr
    cases hr
  · obtain rfl := Option.some.inj ht
    refine ⟨⟨by decide, ⟨?_, fun _ _ => trivial⟩⟩, fun t ht => ?_⟩
    · intro r _ _ _ c ⟨p, hp, _⟩
      obtain hp := List.mem_singleton.mp hp
      cases hp
    · obtain rfl := Option.some.inj ht
      refine ⟨⟨by decide, ⟨trivial, fun _ _ => trivial⟩⟩, fun t ht => ?_⟩
      obtain rfl := Option.some.inj ht
      exact ⟨⟨by decide, ⟨trivial, fun _ _ => trivial⟩⟩, fun _ _ => trivial⟩

theorem promised_ballots_grow_unpromised :
    ∃ s, runMessages .shipped quietDisk (acceptorStart 0) unpromisedRun = some s ∧
      s.promisesSent.map PromiseMsg.ballot = [30, 20] ∧
      s.promisesSent.Pairwise PromiseMsg.Above := by
  have run : runMessages .shipped quietDisk (acceptorStart 0) unpromisedRun = some _ := rfl
  exact ⟨_, run, rfl, (promised_ballots_grow quietDisk_putsSucceed
    (reachable_run (.init ⟨0, rfl⟩) unpromisedRun_keeps run)).1⟩

/-- The fast accept takes the ballot of the record down to 11, so that the prepare, sent
twice, is granted twice. -/
def replayedPrepareRun : List PaxosMsg :=
  [preparePacket [⟨0, 20⟩], anyvalPacket 20 [0], acceptPacket ⟨0, 11, 1, 1, [7]⟩,
    preparePacket [⟨0, 20⟩]]

theorem replayedPrepareRun_repeats_ballot :
    (∀ msg ∈ replayedPrepareRun, msg.data.WellFormed) ∧
      ∃ s, runMessages .shipped quietDisk (acceptorStart 0) replayedPrepareRun = some s ∧
        ¬ s.promisesSent.Pairwise PromiseMsg.Above := by
  refine ⟨by decide, _, rfl, fun grow => ?_⟩
  have hpair : PromiseMsg.Above ⟨0, 20, 11, 1, [7]⟩ ⟨0, 20, -1, 0, []⟩ :=
    (List.pairwise_cons.mp grow).1 _ List.mem_cons_self
  exact absurd (hpair rfl) (Int.lt_irrefl 20)

end LibFastPaxos
