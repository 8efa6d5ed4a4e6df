import LibFastPaxos.EventualDelivery
import LibFastPaxos.ExactlyOnce

/-!
A client does not wait for ever. Its call returns when the learner of its process delivers
an accept with its id, so once such an accept is settled it returns sooner or later.
-/

namespace LibFastPaxos

open Transition Filter

/-- The client of the process with this `proposer_id` is waiting. -/
def Process.Waits (p : Process) (id : Int) : Prop :=
  ∃ s, p.proposer = some s ∧ s.proposerId = id ∧ s.clientWaiting = true

instance (p : Process) (id : Int) : Decidable (p.Waits id) :=
  inferInstanceAs (Decidable (∃ s, p.proposer = some s ∧ _))

section Process

variable {cfg : Config} {p q : Process} {id : Int}

/-- The client that is still waiting after a delivery was waiting for another one. -/
theorem deliver_waits {call : DeliverCall} (run : p.deliver call = some q) (waits : q.Waits id) :
    p.Waits id ∧ call.proposer ≠ id := by
  obtain ⟨t, ht, hid, hwaiting⟩ := waits
  unfold Process.deliver at run
  cases hs : p.proposer with
  | none =>
      rw [hs] at run
      obtain rfl := Option.some.inj run
      rw [hs] at ht
      cases ht
  | some s =>
      rw [hs] at run
      obtain ⟨u, hu, rfl⟩ := Option.map_eq_some_iff.mp run
      obtain rfl := Option.some.inj ht
      obtain ⟨-, outcome⟩ := proposerDeliverCallback_outcome hu
      cases outcome with
      | idle idle =>
          rw [idle] at hwaiting
          cases hwaiting
      | woken waiting own => cases hwaiting
      | resent waiting other => exact ⟨⟨s, hs, hid, waiting⟩, hid ▸ other⟩

theorem delivers_wait {calls : List DeliverCall} (run : calls.foldlM Process.deliver p = some q)
    (waits : q.Waits id) : p.Waits id ∧ ∀ call ∈ calls, call.proposer ≠ id := by
  induction calls generalizing p with
  | nil =>
      obtain rfl := Option.some.inj run
      exact ⟨waits, nofun⟩
  | cons call calls ih =>
      rw [List.foldlM_cons] at run
      obtain ⟨u, hu, rest⟩ := Option.bind_eq_some_iff.mp run
      obtain ⟨hwaits, hothers⟩ := ih rest
      obtain ⟨hbefore, hother⟩ := deliver_waits hu hwaits
      exact ⟨hbefore, List.forall_mem_cons.mpr ⟨hother, hothers⟩⟩

/-- Nobody waits on after his own value is delivered. -/
theorem receive_wakes (tight : LearnerTight cfg p.learner) {msg : PaxosMsg}
    (run : p.receive cfg msg = some q) {call : DeliverCall} (new : call ∈ q.learner.delivered)
    (old : call ∉ p.learner.delivered) : ¬ q.Waits call.proposer := by
  intro waits
  unfold Process.receive at run
  split at run
  · next lmsg _ =>
      obtain ⟨-, calls, hcalls⟩ := tight.sound.learnerHandleLearnMsg lmsg trivial
      have hlearner : q.learner = learnerHandleLearnMsg cfg p.learner lmsg :=
        (delivers_keeps _ run).1
      rw [hlearner, hcalls] at new
      have hmem : call ∈ newDeliveries p.learner (learnerHandleLearnMsg cfg p.learner lmsg) := by
        rw [newDeliveries, hcalls, List.length_append, Nat.add_sub_cancel, List.take_left,
          List.mem_reverse]
        exact (List.mem_append.mp new).resolve_right old
      exact (delivers_wait run waits).2 call hmem rfl
  · obtain rfl := Option.some.inj run
    exact old new
  · obtain rfl := Option.some.inj run
    exact old new

end Process

section System

variable {cfg : Config} {D : Deployment cfg} {guard : SystemState D → Action D → Prop}
  {σ τ : SystemState D} {i : Fin D.processes}

/-- Only a process that receives a message delivers. -/
theorem delivered_received {action : Action D} (move : act σ action = some τ)
    (delivers : (τ.processes i).learner.delivered ≠ (σ.processes i).learner.delivered) :
    ∃ msg, (σ.processes i).receive cfg msg = some (τ.processes i) := by
  have other : ∀ {j : Fin D.processes} {p : Process}, τ = σ.setProcess j p →
      p.learner.delivered = (σ.processes j).learner.delivered → False := by
    intro j p hτ hp
    subst hτ
    apply delivers
    by_cases hij : i = j
    · subst hij
      simpa [SystemState.setProcess] using hp
    · simp [SystemState.setProcess, Function.update_of_ne hij]
  cases action with
  | acceptor a msg =>
      obtain ⟨-, run⟩ := Option.ite_none_right_eq_some.mp move
      obtain ⟨s, -, rfl⟩ := Option.map_eq_some_iff.mp run
      exact absurd rfl delivers
  | receive j msg =>
      obtain ⟨-, run⟩ := Option.ite_none_right_eq_some.mp move
      obtain ⟨p, hp, rfl⟩ := Option.map_eq_some_iff.mp run
      by_cases hij : i = j
      · subst hij
        refine ⟨msg, hp.trans (congrArg some ?_)⟩
        simp [SystemState.setProcess]
      · refine absurd ?_ delivers
        simp [SystemState.setProcess, Function.update_of_ne hij]
  | lsyncTimer j =>
      obtain rfl := Option.some.inj move
      obtain ⟨packets, hpackets⟩ := lsyncCheck_sends cfg (σ.processes j).learner
      exact (other rfl (by rw [hpackets])).elim
  | phase1Timer j | phase2Timer j =>
      obtain ⟨l, -, rfl⟩ := Option.map_eq_some_iff.mp move
      exact (other rfl rfl).elim
  | timeout j ti | submit j value =>
      obtain ⟨s, -, run⟩ := Option.bind_eq_some_iff.mp move
      obtain ⟨-, hτ⟩ := Option.ite_none_right_eq_some.mp run
      exact (other (Option.some.inj hτ).symm rfl).elim

/-- What was delivered is not above the last instance delivered. -/
theorem iid_le_of_delivered (h : Reachable (system D) guard σ) {call : DeliverCall}
    (delivered : call ∈ (σ.processes i).learner.delivered) :
    call.iid ≤ (σ.processes i).learner.highestDelivered := by
  obtain ⟨events, hevents⟩ := learners_run h i
  have horder : InOrder (σ.processes i).learner := hevents ▸ learnerRun_inOrder cfg events
  have hmem : call.iid ∈ (σ.processes i).learner.delivered.reverse.map DeliverCall.iid :=
    List.mem_map_of_mem (List.mem_reverse.mpr delivered)
  rw [horder] at hmem
  obtain ⟨k, hk, hiid⟩ := List.mem_map.mp hmem
  have := List.mem_range.mp hk
  omega

end System

/-- What proposer 2 sends for instance 1. -/
def eightLater : AcceptMsg := ⟨1, 12, 1, 2, [8]⟩

/-- The learns of its own value are lost on their way to process 1. -/
def unheardRun : List (Action pairFive) :=
  openRound (0 : Fin 5) 20 1 ++ [.submit (1 : Fin 5) [7]] ++ toAll (acceptPacket sevenAccept) ++
    fromAll (2 : Fin 5) sevenAccept.learnPacket ++ [.submit (2 : Fin 5) [8]] ++
    toAll (acceptPacket eightLater) ++ fromAll (1 : Fin 5) eightLater.learnPacket ++
    [.lsyncTimer (1 : Fin 5)] ++ toAll (lsyncPacket [0]) ++
    fromAll (1 : Fin 5) sevenAccept.learnPacket

theorem unheardRun_submitsOnce :
    Meets act SubmitsOnce (systemStart pairFive) unheardRun := by
  have hchecked : Meets act
      (fun σ action => AcceptorsMeet (VotesKept True pair) σ action ∧ NoOverflow σ action ∧
        PicksMeet OwnerKept σ action)
      (systemStart pairFive) unheardRun := by
    decide +kernel
  exact hchecked.mono fun σ action h =>
    ⟨⟨h.1, h.2.1, unrivalled_of_three (by decide) _ σ action⟩, h.2.2⟩

end LibFastPaxos
