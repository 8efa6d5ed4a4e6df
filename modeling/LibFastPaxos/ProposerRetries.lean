import LibFastPaxos.ProposerRuns
import LibFastPaxos.Lib.Transition

/-!
The retry of a waiting client. An expired timeout sends the buffer again if it
still has the instance and the hash of the last accept; the deliver callback
keeps this so unless it moves the buffer to the next instance.
-/

namespace LibFastPaxos

open Transition

inductive ProposerEvent where
  | submit (value : Bytes)
  | deliver (call : DeliverCall)
  | timeout (ti : TimeoutInfo)
  deriving DecidableEq, Repr

/-- `none` when the event is not possible or fails the assertion of the callback. -/
def proposerStep (s : ProposerState) : ProposerEvent → Option ProposerState
  | .submit value =>
      if s.clientWaiting = false then some (proposerSubmitValue s value) else none
  | .deliver call => proposerDeliverCallback s call
  | .timeout ti => if ti ∈ s.timers then some (proposerCheckTimeout s ti) else none

/-- An armed timeout of the accept in the buffer: when it goes off the buffer is sent. -/
structure ProposerState.Retries (s : ProposerState) (ti : TimeoutInfo) : Prop where
  armed : ti ∈ s.timers
  instance_eq : ti.instanceId = s.lastAcceptIid
  hash_eq : ti.hash = s.lastAcceptHash
  buffer : ti.instanceId = s.amsg.iid
  resends : (proposerCheckTimeout s ti).sent =
    { size := s.size, data := .accept s.amsg } :: s.sent

def ProposerState.LiveRetry (s : ProposerState) : Prop :=
  s.clientWaiting = true → ∃ ti, s.Retries ti

/-- The condition: only its own value is delivered to a waiting client. -/
def OwnWhileWaiting (s : ProposerState) : ProposerEvent → Prop
  | .deliver call => s.clientWaiting = true → call.proposer = s.proposerId
  | .submit _ | .timeout _ => True

section Retry

variable {s t : ProposerState} {ti : TimeoutInfo}

theorem proposerCheckTimeout_match (waiting : s.clientWaiting = true)
    (instance_eq : ti.instanceId = s.lastAcceptIid) (hash_eq : ti.hash = s.lastAcceptHash) :
    proposerCheckTimeout s ti =
      { s with
        lastAcceptHash := s.lastAcceptHash + 1
        timers := ⟨ti.instanceId, s.lastAcceptHash + 1⟩ :: s.timers.erase ti
        trace := .send { size := s.size, data := .accept s.amsg } :: s.trace } :=
  if_pos ⟨waiting, instance_eq, hash_eq⟩

theorem proposerCheckTimeout_stale
    (stale : ¬ (s.clientWaiting = true ∧ ti.instanceId = s.lastAcceptIid ∧
      ti.hash = s.lastAcceptHash)) :
    proposerCheckTimeout s ti = { s with timers := s.timers.erase ti } :=
  if_neg stale

theorem ProposerState.Retries.of_match (waiting : s.clientWaiting = true) (armed : ti ∈ s.timers)
    (instance_eq : ti.instanceId = s.lastAcceptIid) (hash_eq : ti.hash = s.lastAcceptHash)
    (buffer : ti.instanceId = s.amsg.iid) : s.Retries ti := by
  refine ⟨armed, instance_eq, hash_eq, buffer, ?_⟩
  rw [proposerCheckTimeout_match waiting instance_eq hash_eq]
  rfl

theorem liveRetry_of_idle (idle : s.clientWaiting = false) : s.LiveRetry := by
  intro hwaiting
  rw [idle] at hwaiting
  cases hwaiting

theorem ProposerState.LiveRetry.submit (idle : s.clientWaiting = false) (value : Bytes) :
    (proposerSubmitValue s value).LiveRetry := by
  simp only [proposerSubmitValue]
  split
  · exact liveRetry_of_idle idle
  · intro hwaiting
    exact ⟨⟨s.currentIid, 1⟩, .of_match hwaiting List.mem_cons_self rfl rfl rfl⟩

theorem ProposerState.LiveRetry.checkTimeout (h : s.LiveRetry) (ti : TimeoutInfo) :
    (proposerCheckTimeout s ti).LiveRetry := by
  by_cases hmatch : s.clientWaiting = true ∧ ti.instanceId = s.lastAcceptIid ∧
      ti.hash = s.lastAcceptHash
  · obtain ⟨waiting, instance_eq, hash_eq⟩ := hmatch
    obtain ⟨live, hlive⟩ := h waiting
    rw [proposerCheckTimeout_match waiting instance_eq hash_eq]
    have hbuffer : ti.instanceId = s.amsg.iid :=
      instance_eq.trans (hlive.instance_eq.symm.trans hlive.buffer)
    intro _
    exact ⟨⟨ti.instanceId, s.lastAcceptHash + 1⟩,
      .of_match waiting List.mem_cons_self instance_eq rfl hbuffer⟩
  · rw [proposerCheckTimeout_stale hmatch]
    intro waiting
    obtain ⟨live, hlive⟩ := h waiting
    -- the timeout that went off is not the live one
    have hother : live ≠ ti := by
      intro heq
      subst heq
      exact hmatch ⟨waiting, hlive.instance_eq, hlive.hash_eq⟩
    have harmed : live ∈ s.timers.erase ti := (List.mem_erase_of_ne hother).mpr hlive.armed
    exact ⟨live, .of_match waiting harmed hlive.instance_eq hlive.hash_eq hlive.buffer⟩

theorem ProposerState.LiveRetry.deliver {call : DeliverCall} (outcome : DeliverOutcome s call t)
    (own : s.clientWaiting = true → call.proposer = s.proposerId) : t.LiveRetry := by
  cases outcome with
  | idle waiting => exact liveRetry_of_idle waiting
  | woken waiting _ => exact liveRetry_of_idle rfl
  | resent waiting other => exact absurd (own waiting) other

theorem ProposerState.LiveRetry.step {event : ProposerEvent} (h : s.LiveRetry)
    (move : proposerStep s event = some t) (own : OwnWhileWaiting s event) : t.LiveRetry := by
  cases event with
  | submit value =>
      obtain ⟨idle, ht⟩ := Option.ite_none_right_eq_some.mp move
      obtain rfl := Option.some.inj ht
      exact .submit idle value
  | deliver call => exact .deliver (proposerDeliverCallback_outcome move).2 own
  | timeout ti =>
      obtain ⟨_, ht⟩ := Option.ite_none_right_eq_some.mp move
      obtain rfl := Option.some.inj ht
      exact h.checkTimeout ti

/-- After somebody else's value the last accept and the buffer are an instance apart. -/
theorem own_of_liveRetry {event : ProposerEvent} (move : proposerStep s event = some t)
    (live : t.LiveRetry) : OwnWhileWaiting s event := by
  cases event with
  | submit _ | timeout _ => trivial
  | deliver call =>
      intro hwaiting
      cases (proposerDeliverCallback_outcome move).2 with
      | idle idle =>
          rw [idle] at hwaiting
          cases hwaiting
      | woken _ own => exact own
      | resent waiting other =>
          obtain ⟨ti, hti⟩ := live waiting
          have hlast : ti.instanceId = s.currentIid := hti.instance_eq
          have hbuffer : ti.instanceId = s.currentIid + 1 := hti.buffer
          omega

end Retry

/-- A waiting client has a live retry in every state of a run exactly when nothing but its
own value is ever delivered to it. -/
theorem waiting_client_retries_iff {cfg : Config} {propId : Int} {f : Bool}
    {start final : ProposerState} {events : List ProposerEvent}
    (entry : start = proposerInit cfg propId ∨ start = proposerInitAndDeliver cfg propId f)
    (run : events.foldlM proposerStep start = some final) :
    Throughout proposerStep ProposerState.LiveRetry start events ↔
      Meets proposerStep OwnWhileWaiting start events := by
  have hstart : start.LiveRetry := by
    cases entry with
    | inl heq | inr heq =>
        subst heq
        exact liveRetry_of_idle rfl
  refine throughout_iff_meets ProposerState.LiveRetry (fun _ h => h) ?_ ?_ hstart run
  · intro s event t live move own
    exact live.step move own
  · intro s event t _ move live
    exact own_of_liveRetry move live

/-- The accept is lost, sent again, and delivered. -/
def retriedEvents : List ProposerEvent :=
  [.submit [7], .timeout ⟨0, 1⟩, .deliver ⟨[7], 1, 0, 11, 1⟩]

theorem waiting_client_retries_retried :
    Throughout proposerStep ProposerState.LiveRetry (proposerInit .shipped 1) retriedEvents := by
  have run : retriedEvents.foldlM proposerStep (proposerInit .shipped 1) = some _ := rfl
  refine (waiting_client_retries_iff (f := false) (.inl rfl) run).mpr ?_
  refine ⟨trivial, fun s hs => ?_⟩
  obtain rfl := Option.some.inj hs
  refine ⟨trivial, fun s hs => ?_⟩
  obtain rfl := Option.some.inj hs
  exact ⟨fun _ => rfl, fun _ _ => trivial⟩

/-- Somebody else's value is delivered for the instance of the client's accept. -/
theorem foreignDelivery_loses_retry :
    ∃ s, [.submit [7], .deliver ⟨[8], 1, 0, 12, 2⟩].foldlM proposerStep
        (proposerInit .shipped 1) = some s ∧
      s.clientWaiting = true ∧ ¬ s.LiveRetry ∧
      s.timers = [⟨1, 2⟩, ⟨0, 1⟩] ∧
      ∀ ti ∈ s.timers, (proposerCheckTimeout s ti).sent = s.sent := by
  refine ⟨_, rfl, rfl, ?_, rfl, by decide⟩
  intro live
  obtain ⟨ti, hti⟩ := live rfl
  have hlast : ti.instanceId = 0 := hti.instance_eq
  have hbuffer : ti.instanceId = 1 := hti.buffer
  omega

end LibFastPaxos
