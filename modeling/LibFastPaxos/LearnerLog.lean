import LibFastPaxos.LearnerRuns

/-!
The learner without its ring: one record per instance in an unbounded log, a
window of instances above the last one delivered, and delivery whenever the next
instance is closed. The ring shows each undelivered instance as the log has it,
so both make the same deliver calls.
-/

namespace LibFastPaxos

/-- What is known of one instance: the newest learn of each acceptor and, once it is
closed, the deliver call that it waits for. -/
structure InstanceLog where
  learns : Nat → Option LearnMsg
  closed : Option DeliverCall

/-- The deliver call of an instance that the learn closes. -/
def LearnMsg.call (lmsg : LearnMsg) : DeliverCall where
  value := memcpy lmsg.value lmsg.valueSize
  size := lmsg.valueSize
  iid := lmsg.iid
  ballot := lmsg.ballot
  proposer := lmsg.proposerId

namespace InstanceLog

def empty : InstanceLog where
  learns := fun _ => none
  closed := none

/-- How many acceptors' newest learn has the ballot. -/
def count (cfg : Config) (e : InstanceLog) (ballot : Int) : Int :=
  ((List.range cfg.nOfAcceptors).filter fun a =>
    (e.learns a).any fun l => l.ballot = ballot).length

/-- The learn is of one of the acceptors, and newer than what it has sent before. -/
def fresh (cfg : Config) (e : InstanceLog) (lmsg : LearnMsg) : Bool :=
  decide (0 ≤ lmsg.acceptorId ∧ lmsg.acceptorId < cfg.nOfAcceptors) &&
    (e.learns lmsg.acceptorId.toNat).all fun l => decide (l.ballot < lmsg.ballot)

def store (e : InstanceLog) (lmsg : LearnMsg) : InstanceLog :=
  { e with learns := Function.update e.learns lmsg.acceptorId.toNat (some lmsg) }

/-- A closed instance and an old learn are left as they are. -/
def learn (cfg : Config) (e : InstanceLog) (lmsg : LearnMsg) : InstanceLog :=
  if e.closed.isSome ∨ e.fresh cfg lmsg = false then e
  else
    let e := e.store lmsg
    if e.count cfg lmsg.ballot ≥ cfg.quorum then { e with closed := some lmsg.call } else e

end InstanceLog

structure LogLearner where
  highestDelivered : Int
  log : Int → InstanceLog
  delivered : List DeliverCall

namespace LogLearner

def start : LogLearner where
  highestDelivered := -1
  log := fun _ => .empty
  delivered := []

/-- Delivery goes on as long as the next instance is closed. -/
def deliverClosed : Nat → LogLearner → LogLearner
  | 0, s => s
  | turns + 1, s =>
      match (s.log (s.highestDelivered + 1)).closed with
      | none => s
      | some call =>
          deliverClosed turns
            { s with
              highestDelivered := s.highestDelivered + 1
              delivered := call :: s.delivered }

/-- Learns outside the window of `size` instances are dropped. -/
def handleLearn (cfg : Config) (s : LogLearner) (lmsg : LearnMsg) : LogLearner :=
  let size := cfg.learnerArraySize.size
  if lmsg.iid ≤ s.highestDelivered ∨ lmsg.iid ≥ s.highestDelivered + size then s
  else
    deliverClosed size
      { s with log := Function.update s.log lmsg.iid ((s.log lmsg.iid).learn cfg lmsg) }

end LogLearner

/-- What the ring has stored for an instance. -/
def LearnerState.kept (s : LearnerState) (cfg : Config) (iid : Int) : InstanceLog :=
  let r := s.slot cfg iid
  if r.iid = iid then { learns := r.learns, closed := r.finalValue.map (r.call iid) } else .empty

section Kept

variable {cfg : Config} {backed : LearnMsg → Prop} {s t : LearnerState}

theorem kept_of_iid {i : Int} (iid : (s.slot cfg i).iid = i) :
    s.kept cfg i =
      { learns := (s.slot cfg i).learns
        closed := (s.slot cfg i).finalValue.map ((s.slot cfg i).call i) } := by
  simp [LearnerState.kept, iid]

theorem kept_of_ne {i : Int} (iid : (s.slot cfg i).iid ≠ i) : s.kept cfg i = .empty := by
  simp [LearnerState.kept, iid]

theorem kept_congr {i : Int} (slot : t.slot cfg i = s.slot cfg i) :
    t.kept cfg i = s.kept cfg i := by
  simp only [LearnerState.kept]
  rw [slot]

theorem learnerSlot_setSlot_of_ne {i j : Int} {r : LearnerRecord}
    (ne : cfg.learnerArraySize.index j ≠ cfg.learnerArraySize.index i) :
    (s.setSlot cfg i r).slot cfg j = s.slot cfg j :=
  Function.update_of_ne ne _ _

@[simp] theorem learnerSlot_setSlot (i : Int) (r : LearnerRecord) :
    (s.setSlot cfg i r).slot cfg i = r :=
  Function.update_self _ _ _

theorem kept_setSlot_self (i : Int) (r : LearnerRecord) :
    (s.setSlot cfg i r).kept cfg i =
      if r.iid = i then { learns := r.learns, closed := r.finalValue.map (r.call i) }
      else .empty := by
  simp only [LearnerState.kept, learnerSlot_setSlot]

/-- Another instance of the slot has nothing stored, before or after. -/
theorem kept_setSlot_of_ne {i j : Int} {r : LearnerRecord} (iid : r.iid = i) (ne : j ≠ i)
    (empty : cfg.learnerArraySize.index j = cfg.learnerArraySize.index i →
      s.kept cfg j = .empty) : (s.setSlot cfg i r).kept cfg j = s.kept cfg j := by
  by_cases hindex : cfg.learnerArraySize.index j = cfg.learnerArraySize.index i
  · rw [empty hindex]
    apply kept_of_ne
    simp only [LearnerState.slot, hindex]
    simp [LearnerState.setSlot, iid, Ne.symm ne]
  · exact kept_congr (learnerSlot_setSlot_of_ne hindex)

/-! ### One learn -/

theorem addLearnToRecord_eq (r : LearnerRecord) (lmsg : LearnMsg) (e : InstanceLog)
    (learns : e.learns = r.learns) :
    addLearnToRecord cfg r lmsg =
      if e.fresh cfg lmsg then
        some { r with learns := Function.update r.learns lmsg.acceptorId.toNat (some lmsg) }
      else none := by
  unfold addLearnToRecord InstanceLog.fresh
  rw [learns]
  by_cases hrange : lmsg.acceptorId < 0 ∨ lmsg.acceptorId ≥ cfg.nOfAcceptors
  · have hout : ¬(0 ≤ lmsg.acceptorId ∧ lmsg.acceptorId < cfg.nOfAcceptors) := by omega
    rw [if_pos hrange]
    simp [hout]
  · have hin : 0 ≤ lmsg.acceptorId ∧ lmsg.acceptorId < cfg.nOfAcceptors := by omega
    rw [if_neg hrange]
    cases hl : r.learns lmsg.acceptorId.toNat with
    | none => simp [hin]
    | some old =>
        by_cases hold : old.ballot ≥ lmsg.ballot
        · simp [hin, hold]
        · simp [hin, hold, Int.not_le.mp hold]

/-- What a learner keeps true beside `LearnerSound`: the next instance is open, and
nothing is stored for an instance out of reach. -/
structure LearnerTight (cfg : Config) (s : LearnerState) : Prop where
  sound : LearnerSound cfg (fun _ => True) s
  next_open : isClosed (s.slot cfg (s.highestDelivered + 1)) = false
  beyond : ∀ i, s.highestDelivered + cfg.learnerArraySize.size ≤ i → s.kept cfg i = .empty

/-- Where `learnerHandleLearnMsg` stands before it delivers. -/
structure Collected (cfg : Config) (s : LearnerState) (lmsg : LearnMsg) (u : LearnerState) :
    Prop where
  highest : u.highestDelivered = s.highestDelivered
  delivered : u.delivered = s.delivered
  sound : LearnerSound cfg (fun _ => True) u
  kept : ∀ i, s.highestDelivered < i → u.kept cfg i =
    if i = lmsg.iid ∧ i < s.highestDelivered + cfg.learnerArraySize.size then
      (s.kept cfg i).learn cfg lmsg
    else s.kept cfg i

theorem learn_of_not_fresh {e : InstanceLog} {lmsg : LearnMsg}
    (stale : e.fresh cfg lmsg = false) : e.learn cfg lmsg = e := by
  simp [InstanceLog.learn, stale]

theorem learn_of_closed {e : InstanceLog} {lmsg : LearnMsg} (closed : e.closed.isSome) :
    e.learn cfg lmsg = e := by
  simp [InstanceLog.learn, closed]

/-- Writing the record of an instance of the window touches no other instance. -/
theorem kept_frame (low : -1 ≤ s.highestDelivered)
    (beyond : ∀ i, s.highestDelivered + cfg.learnerArraySize.size ≤ i → s.kept cfg i = .empty)
    {i : Int} (window : s.InWindow cfg i) {r : LearnerRecord} (iid : r.iid = i) {j : Int}
    (undelivered : s.highestDelivered < j) (ne : j ≠ i) :
    (s.setSlot cfg i r).kept cfg j = s.kept cfg j := by
  obtain ⟨hlow, hhigh⟩ := window
  apply kept_setSlot_of_ne iid ne
  intro hindex
  apply beyond
  by_cases hnear : j < i + cfg.learnerArraySize.size
  · have := cfg.learnerArraySize.eq_of_index_eq (by omega) (by omega) hindex hnear (by omega)
    exact absurd this ne
  · omega

/-- What `update_record` does, seen from the log. -/
inductive UpdateOutcome (cfg : Config) (s : LearnerState) (lmsg : LearnMsg) :
    LearnerState × Bool → Prop where
  | dropped {u : LearnerState} (highest : u.highestDelivered = s.highestDelivered)
      (delivered : u.delivered = s.delivered)
      (sound : LearnerSound cfg (fun _ => True) u)
      (same : ∀ j, s.highestDelivered < j → u.kept cfg j = s.kept cfg j)
      (stale : s.InWindow cfg lmsg.iid →
        (s.kept cfg lmsg.iid).learn cfg lmsg = s.kept cfg lmsg.iid) :
      UpdateOutcome cfg s lmsg (u, false)
  | stored {u : LearnerState} (highest : u.highestDelivered = s.highestDelivered)
      (delivered : u.delivered = s.delivered)
      (sound : LearnerSound cfg (fun _ => True) u)
      (other : ∀ j, s.highestDelivered < j → j ≠ lmsg.iid → u.kept cfg j = s.kept cfg j)
      (window : s.InWindow cfg lmsg.iid)
      (opened : (s.kept cfg lmsg.iid).closed = none)
      (fresh : (s.kept cfg lmsg.iid).fresh cfg lmsg = true)
      (iid : (u.slot cfg lmsg.iid).iid = lmsg.iid)
      (final : (u.slot cfg lmsg.iid).finalValue = none)
      (learns : (u.slot cfg lmsg.iid).learns =
        Function.update (s.kept cfg lmsg.iid).learns lmsg.acceptorId.toNat (some lmsg)) :
      UpdateOutcome cfg s lmsg (u, true)

theorem LearnerTight.update (h : LearnerTight cfg s) (lmsg : LearnMsg) :
    UpdateOutcome cfg s lmsg (updateRecord cfg s lmsg) := by
  obtain ⟨hsound, -, -⟩ := h.sound.updateRecord lmsg trivial
  have hcase := updateRecord_case cfg s lmsg
  generalize updateRecord cfg s lmsg = res at hsound hcase ⊢
  have hframe : ∀ (r : LearnerRecord) (j : Int), s.InWindow cfg lmsg.iid → r.iid = lmsg.iid →
      s.highestDelivered < j → j ≠ lmsg.iid →
        (s.setSlot cfg lmsg.iid r).kept cfg j = s.kept cfg j :=
    fun r j window iid => kept_frame h.sound.low h.beyond window iid
  cases hcase with
  | outside out => exact .dropped rfl rfl h.sound (fun _ _ => rfl) fun window => absurd window out
  | first window other added =>
      have hempty : s.kept cfg lmsg.iid = .empty := kept_of_ne other
      rw [addLearnToRecord_eq _ lmsg (s.kept cfg lmsg.iid) (by rw [hempty]; rfl)] at added
      obtain ⟨hfresh, hr⟩ := Option.ite_none_right_eq_some.mp added
      obtain rfl := Option.some.inj hr
      refine .stored rfl rfl hsound (fun j => hframe _ j window rfl) window (by rw [hempty]; rfl)
        hfresh ?_ ?_ ?_
      · rw [learnerSlot_setSlot]
        rfl
      · rw [learnerSlot_setSlot]
        rfl
      · rw [learnerSlot_setSlot, hempty]
        rfl
  | cleaned window other refused =>
      have hempty : s.kept cfg lmsg.iid = .empty := kept_of_ne other
      rw [addLearnToRecord_eq _ lmsg (s.kept cfg lmsg.iid) (by rw [hempty]; rfl)] at refused
      have hstale : (s.kept cfg lmsg.iid).fresh cfg lmsg = false := by simpa using refused
      refine .dropped rfl rfl hsound ?_ fun _ => learn_of_not_fresh hstale
      intro j hj
      by_cases hown : j = lmsg.iid
      · subst hown
        rw [hempty, kept_setSlot_self]
        exact if_pos rfl
      · exact hframe _ j window rfl hj hown
  | closed iid closed =>
      refine .dropped rfl rfl h.sound (fun _ _ => rfl) fun _ => learn_of_closed ?_
      rw [kept_of_iid iid]
      simpa [isClosed] using closed
  | next window iid opened added =>
      have hkept := kept_of_iid iid
      rw [addLearnToRecord_eq _ lmsg (s.kept cfg lmsg.iid) (by rw [hkept])] at added
      obtain ⟨hfresh, hr⟩ := Option.ite_none_right_eq_some.mp added
      obtain rfl := Option.some.inj hr
      refine .stored rfl rfl hsound (fun j => hframe _ j window iid) window
        (by rw [hkept, opened]; rfl) hfresh ?_ ?_ ?_
      · rw [learnerSlot_setSlot]
        exact iid
      · rw [learnerSlot_setSlot]
        exact opened
      · rw [learnerSlot_setSlot, hkept]
  | stale iid refused =>
      rw [addLearnToRecord_eq _ lmsg (s.kept cfg lmsg.iid) (by rw [kept_of_iid iid])] at refused
      have hstale : (s.kept cfg lmsg.iid).fresh cfg lmsg = false := by simpa using refused
      exact .dropped rfl rfl h.sound (fun _ _ => rfl) fun _ => learn_of_not_fresh hstale

theorem learn_of_fresh {e : InstanceLog} {lmsg : LearnMsg} (opened : e.closed = none)
    (fresh : e.fresh cfg lmsg = true) :
    e.learn cfg lmsg =
      if (e.store lmsg).count cfg lmsg.ballot ≥ cfg.quorum then
        { e.store lmsg with closed := some lmsg.call }
      else e.store lmsg := by
  simp [InstanceLog.learn, opened, fresh]

/-- The record that a quorum of learns closes. -/
def LearnerRecord.closeWith (r : LearnerRecord) (lmsg : LearnMsg) : LearnerRecord :=
  { r with
    ballot := lmsg.ballot
    proposerId := lmsg.proposerId
    finalValueSize := lmsg.valueSize
    finalValue := some (memcpy lmsg.value lmsg.valueSize) }

@[simp] theorem closeWith_iid (r : LearnerRecord) (lmsg : LearnMsg) :
    (r.closeWith lmsg).iid = r.iid := rfl

/-- The count over the record is the count over the log. -/
theorem checkQuorum_eq {u : LearnerState} {lmsg : LearnMsg} {e : InstanceLog}
    (learns : (u.slot cfg lmsg.iid).learns = e.learns) :
    checkQuorum cfg u lmsg =
      if e.count cfg lmsg.ballot ≥ cfg.quorum then
        (u.setSlot cfg lmsg.iid ((u.slot cfg lmsg.iid).closeWith lmsg), true)
      else (u, false) := by
  unfold checkQuorum InstanceLog.count
  rw [← learns]
  rfl

/-- An instance is open in the slot when it is in the log. -/
theorem LearnerSound.next_opened (h : LearnerSound cfg backed s)
    (opened : (s.kept cfg (s.highestDelivered + 1)).closed = none) :
    (s.slot cfg (s.highestDelivered + 1)).finalValue = none := by
  cases hv : (s.slot cfg (s.highestDelivered + 1)).finalValue with
  | none => rfl
  | some v =>
      have hiid := h.next_iid (by simp [isClosed, hv])
      rw [kept_of_iid hiid, hv] at opened
      cases opened

theorem LearnerTight.next_closed (h : LearnerTight cfg s) :
    (s.kept cfg (s.highestDelivered + 1)).closed = none := by
  have hopen : (s.slot cfg (s.highestDelivered + 1)).finalValue = none := by
    simpa [isClosed] using h.next_open
  simp only [LearnerState.kept, hopen]
  split <;> rfl

/-- The highest instance seen plays no part in what is stored. -/
theorem LearnerTight.seen (h : LearnerTight cfg s) (iid : Int) :
    LearnerTight cfg { s with highestSeen := iid } :=
  ⟨⟨h.sound.low, h.sound.records, h.sound.window, h.sound.decided, h.sound.packets⟩,
    h.next_open, h.beyond⟩

/-- The learn is stored for its own instance and nowhere else. -/
theorem Collected.of_own {u : LearnerState} {lmsg : LearnMsg}
    (highest : u.highestDelivered = s.highestDelivered) (delivered : u.delivered = s.delivered)
    (sound : LearnerSound cfg (fun _ => True) u) (window : s.InWindow cfg lmsg.iid)
    (own : u.kept cfg lmsg.iid = (s.kept cfg lmsg.iid).learn cfg lmsg)
    (other : ∀ j, s.highestDelivered < j → j ≠ lmsg.iid → u.kept cfg j = s.kept cfg j) :
    Collected cfg s lmsg u := by
  refine ⟨highest, delivered, sound, ?_⟩
  intro i hi
  by_cases heq : i = lmsg.iid
  · subst heq
    rw [if_pos ⟨rfl, window.2⟩]
    exact own
  · rw [if_neg fun hand => heq hand.1]
    exact other i hi heq

/-- Nothing is delivered while the next instance is open. -/
theorem Collected.stops {u : LearnerState} {lmsg : LearnMsg} (h : Collected cfg s lmsg u)
    (opened : (u.kept cfg (s.highestDelivered + 1)).closed = none) :
    DeliverReturns cfg u (s.highestDelivered + 1) u := by
  refine .stop ?_
  rw [← h.highest] at opened ⊢
  exact h.sound.next_opened opened

/-- Closing the record of the window's instance touches no other instance. -/
theorem LearnerTight.kept_closeWith (h : LearnerTight cfg s) {u : LearnerState} {lmsg : LearnMsg}
    (highest : u.highestDelivered = s.highestDelivered) (window : s.InWindow cfg lmsg.iid)
    (other : ∀ j, s.highestDelivered < j → j ≠ lmsg.iid → u.kept cfg j = s.kept cfg j)
    (iid : (u.slot cfg lmsg.iid).iid = lmsg.iid) {j : Int} (undelivered : s.highestDelivered < j)
    (ne : j ≠ lmsg.iid) :
    (u.setSlot cfg lmsg.iid ((u.slot cfg lmsg.iid).closeWith lmsg)).kept cfg j = s.kept cfg j := by
  have hlow := h.sound.low
  have hwindow : u.InWindow cfg lmsg.iid := by
    rw [LearnerState.InWindow, highest]
    exact window
  have hbeyond : ∀ j, u.highestDelivered + cfg.learnerArraySize.size ≤ j →
      u.kept cfg j = .empty := by
    intro j hj
    obtain ⟨hlow, hhigh⟩ := window
    rw [other j (by omega) (by omega)]
    exact h.beyond j (by omega)
  rw [kept_frame (by omega) hbeyond hwindow ((closeWith_iid _ _).trans iid) (by omega) ne]
  exact other j undelivered ne

/-- Up to its deliveries, the handler stores the learn as the log does; it delivers from
the next instance on. -/
theorem LearnerTight.collects (h : LearnerTight cfg s) (lmsg : LearnMsg) :
    ∃ u, Collected cfg s lmsg u ∧ DeliverReturns cfg u (s.highestDelivered + 1)
      (match updateRecord cfg s lmsg with
      | (s, false) => s
      | (s, true) =>
          match checkQuorum cfg s lmsg with
          | (s, false) => s
          | (s, true) =>
              if lmsg.iid = s.highestDelivered + 1 then deliverValues cfg s lmsg.iid else s) := by
  have hlow := h.sound.low
  have houtcome := h.update lmsg
  generalize updateRecord cfg s lmsg = res at houtcome ⊢
  cases houtcome with
  | @dropped u highest delivered sound same stale =>
      have hcollected : Collected cfg s lmsg u := by
        refine ⟨highest, delivered, sound, ?_⟩
        intro i hi
        rw [same i hi]
        split
        · next hwindow =>
            obtain ⟨rfl, hhigh⟩ := hwindow
            exact (stale ⟨hi, hhigh⟩).symm
        · rfl
      refine ⟨u, hcollected, hcollected.stops ?_⟩
      rw [same _ (by omega)]
      exact h.next_closed
  | @stored u highest delivered sound other window opened fresh iid final learns =>
      have hlearn := learn_of_fresh opened fresh
      have hwindow : u.InWindow cfg lmsg.iid := by
        rw [LearnerState.InWindow, highest]
        exact window
      obtain ⟨hsound, -, -⟩ := sound.checkQuorum lmsg trivial hwindow iid
      rw [checkQuorum_eq (e := (s.kept cfg lmsg.iid).store lmsg) learns] at hsound
      dsimp only
      rw [checkQuorum_eq (e := (s.kept cfg lmsg.iid).store lmsg) learns]
      by_cases hquorum : ((s.kept cfg lmsg.iid).store lmsg).count cfg lmsg.ballot ≥ cfg.quorum
      · -- the instance is closed, and delivered if it is the next one
        rw [if_pos hquorum] at hsound hlearn ⊢
        have hframe : ∀ j, s.highestDelivered < j → j ≠ lmsg.iid →
            (u.setSlot cfg lmsg.iid ((u.slot cfg lmsg.iid).closeWith lmsg)).kept cfg j =
              s.kept cfg j :=
          fun j => h.kept_closeWith highest window other iid
        have hown : (u.setSlot cfg lmsg.iid ((u.slot cfg lmsg.iid).closeWith lmsg)).kept cfg
            lmsg.iid = (s.kept cfg lmsg.iid).learn cfg lmsg := by
          rw [kept_setSlot_self, closeWith_iid, if_pos iid, hlearn]
          simp [LearnerRecord.closeWith, LearnerRecord.call, LearnMsg.call, InstanceLog.store,
            learns]
        have hcollected : Collected cfg s lmsg
            (u.setSlot cfg lmsg.iid ((u.slot cfg lmsg.iid).closeWith lmsg)) :=
          .of_own highest delivered hsound window hown hframe
        refine ⟨_, hcollected, ?_⟩
        dsimp only
        rw [hcollected.highest]
        split
        · next hiid =>
            rw [← hiid]
            exact deliverValues_returns (by omega)
        · next hiid =>
            apply hcollected.stops
            rw [hframe _ (by omega) (Ne.symm hiid)]
            exact h.next_closed
      · rw [if_neg hquorum] at hlearn ⊢
        have hkept : u.kept cfg lmsg.iid = (s.kept cfg lmsg.iid).learn cfg lmsg := by
          rw [hlearn, kept_of_iid iid, final, learns, InstanceLog.store, opened]
          rfl
        have hcollected := Collected.of_own highest delivered sound window hkept other
        refine ⟨u, hcollected, hcollected.stops ?_⟩
        by_cases heq : s.highestDelivered + 1 = lmsg.iid
        · rw [heq, hkept, hlearn]
          exact opened
        · rw [other _ (by omega) heq]
          exact h.next_closed

theorem LearnerTight.handleLearn (h : LearnerTight cfg s) (lmsg : LearnMsg) :
    ∃ u, Collected cfg s lmsg u ∧
      DeliverReturns cfg u (s.highestDelivered + 1) (learnerHandleLearnMsg cfg s lmsg) := by
  simp only [learnerHandleLearnMsg]
  by_cases hseen : lmsg.iid > s.highestSeen
  · rw [if_pos hseen]
    obtain ⟨u, hcollected, hreturns⟩ := (h.seen lmsg.iid).collects lmsg
    exact ⟨u, ⟨hcollected.highest, hcollected.delivered, hcollected.sound, hcollected.kept⟩,
      hreturns⟩
  · rw [if_neg hseen]
    exact h.collects lmsg

/-! ### Delivery -/

theorem LearnerSound.kept_turn (h : LearnerSound cfg backed s) {v : Bytes}
    (value : (s.slot cfg (s.highestDelivered + 1)).finalValue = some v) {j : Int}
    (undelivered : s.highestDelivered + 1 < j) :
    (s.turn cfg (s.highestDelivered + 1) v).kept cfg j = s.kept cfg j := by
  have hiid := h.next_iid (by simp [isClosed, value])
  have hne : j ≠ s.highestDelivered + 1 := by omega
  refine kept_setSlot_of_ne (s := s) (r := { s.slot cfg (s.highestDelivered + 1) with
    finalValue := none }) hiid hne fun hindex => kept_of_ne ?_
  rw [LearnerState.slot, hindex]
  change (s.slot cfg (s.highestDelivered + 1)).iid ≠ j
  omega

/-- Delivery stops before an open instance and leaves what is stored behind it alone. -/
theorem LearnerSound.delivers_kept {i : Int} (returns : DeliverReturns cfg s i t)
    (h : LearnerSound cfg backed s) (next : i = s.highestDelivered + 1) :
    s.highestDelivered ≤ t.highestDelivered ∧
      isClosed (t.slot cfg (t.highestDelivered + 1)) = false ∧
      ∀ j, t.highestDelivered < j → t.kept cfg j = s.kept cfg j := by
  induction returns with
  | @stop s i opened =>
      subst next
      exact ⟨Int.le_refl _, by simp [isClosed, opened], fun _ _ => rfl⟩
  | @turn s t i v closed rest ih =>
      subst next
      obtain ⟨hle, hopen, hkept⟩ := ih (h.turn closed) rfl
      have hle : s.highestDelivered + 1 ≤ t.highestDelivered := hle
      refine ⟨by omega, hopen, ?_⟩
      intro j hj
      rw [hkept j hj]
      exact h.kept_turn closed (by omega)

/-- A turn keeps the learns of every instance. -/
theorem learns_turn (i : Int) (v : Bytes) (j : Int) :
    ((s.turn cfg i v).kept cfg j).learns = (s.kept cfg j).learns := by
  have hslot : (s.turn cfg i v).slot cfg j =
      if cfg.learnerArraySize.index j = cfg.learnerArraySize.index i then
        { s.slot cfg i with finalValue := none }
      else s.slot cfg j :=
    learnerArray_turn i v _
  simp only [LearnerState.kept]
  rw [hslot]
  by_cases hindex : cfg.learnerArraySize.index j = cfg.learnerArraySize.index i
  · have hsame : s.slot cfg j = s.slot cfg i := by
      simp only [LearnerState.slot, hindex]
    rw [if_pos hindex, hsame]
    dsimp only
    split <;> rfl
  · rw [if_neg hindex]

theorem delivers_learns {i : Int} (returns : DeliverReturns cfg s i t) (j : Int) :
    (t.kept cfg j).learns = (s.kept cfg j).learns := by
  induction returns with
  | stop opened => rfl
  | turn closed rest ih => exact ih.trans (learns_turn _ _ j)

/-- What is delivered was closed. -/
theorem LearnerSound.delivers_closed {i : Int} (returns : DeliverReturns cfg s i t)
    (h : LearnerSound cfg backed s) (next : i = s.highestDelivered + 1) {j : Int}
    (low : s.highestDelivered < j) (high : j ≤ t.highestDelivered) :
    (s.kept cfg j).closed.isSome := by
  induction returns with
  | stop opened => omega
  | @turn s t i v closed rest ih =>
      subst next
      have hiid := h.next_iid (by simp [isClosed, closed])
      by_cases hj : s.highestDelivered + 1 < j
      · have hclosed := ih (h.turn closed) rfl hj high
        rwa [h.kept_turn closed hj] at hclosed
      · obtain rfl : j = s.highestDelivered + 1 := by omega
        rw [kept_of_iid hiid, closed]
        rfl

/-- An event changes what is stored for an undelivered instance by a learn of it only. -/
theorem LearnerTight.event_kept (h : LearnerTight cfg s) (e : LearnerEvent) :
    s.highestDelivered ≤ (learnerEvent cfg s e).highestDelivered ∧
      ∀ i, (learnerEvent cfg s e).highestDelivered < i →
        (learnerEvent cfg s e).kept cfg i = s.kept cfg i ∨
          ∃ lmsg, e = .learn lmsg ∧ i = lmsg.iid ∧
            (learnerEvent cfg s e).kept cfg i = (s.kept cfg i).learn cfg lmsg := by
  cases e with
  | learn lmsg =>
      obtain ⟨u, hcollected, hreturns⟩ := h.handleLearn lmsg
      obtain ⟨hle, -, hkept⟩ :=
        hcollected.sound.delivers_kept hreturns (by rw [hcollected.highest])
      rw [hcollected.highest] at hle
      refine ⟨hle, ?_⟩
      intro i hi
      have hi : (learnerHandleLearnMsg cfg s lmsg).highestDelivered < i := hi
      have hresult := (hkept i hi).trans (hcollected.kept i (by omega))
      by_cases hown : i = lmsg.iid ∧ i < s.highestDelivered + cfg.learnerArraySize.size
      · rw [if_pos hown] at hresult
        exact .inr ⟨lmsg, rfl, hown.1, hresult⟩
      · rw [if_neg hown] at hresult
        exact .inl hresult
  | lsyncTimer =>
      obtain ⟨packets, hpackets⟩ := lsyncCheck_sends cfg s
      simp only [learnerEvent, hpackets]
      exact ⟨Int.le_refl _, fun i _ => .inl rfl⟩

theorem LearnerTight.event (h : LearnerTight cfg s) (e : LearnerEvent) :
    LearnerTight cfg (learnerEvent cfg s e) := by
  have hsound := h.sound.event (e := e) fun _ _ => trivial
  cases e with
  | learn lmsg =>
      obtain ⟨u, hcollected, hreturns⟩ := h.handleLearn lmsg
      obtain ⟨hle, hopen, hkept⟩ :=
        hcollected.sound.delivers_kept hreturns (by rw [hcollected.highest])
      rw [hcollected.highest] at hle
      refine ⟨hsound, hopen, ?_⟩
      intro i hi
      have hsize := cfg.learnerArraySize.size_pos
      change (learnerHandleLearnMsg cfg s lmsg).highestDelivered + _ ≤ i at hi
      have hout : ¬(i = lmsg.iid ∧ i < s.highestDelivered + cfg.learnerArraySize.size) := by
        omega
      exact (hkept i (by omega)).trans (by
        rw [hcollected.kept i (by omega), if_neg hout]
        exact h.beyond i (by omega))
  | lsyncTimer =>
      obtain ⟨packets, hpackets⟩ := lsyncCheck_sends cfg s
      simp only [learnerEvent, hpackets] at hsound ⊢
      exact ⟨hsound, h.next_open, h.beyond⟩

theorem learnerStart_tight : LearnerTight cfg learnerStart := by
  refine ⟨learnerStart_sound, rfl, ?_⟩
  intro i _
  by_cases hi : (learnerStart.slot cfg i).iid = i
  · rw [kept_of_iid hi]
    rfl
  · exact kept_of_ne hi

theorem learnerRun_tight (cfg : Config) (events : List LearnerEvent) :
    LearnerTight cfg (learnerRun cfg events) := by
  induction events using List.reverseRecOn with
  | nil => exact learnerStart_tight
  | append_singleton before e ih =>
      rw [learnerRun_append]
      exact ih.event e

/-! ### The ring against the log -/

/-- The ring shows what the log has of every undelivered instance. -/
structure Shows (cfg : Config) (s : LearnerState) (l : LogLearner) : Prop where
  highest : s.highestDelivered = l.highestDelivered
  delivered : s.delivered = l.delivered
  kept : ∀ j, s.highestDelivered < j → s.kept cfg j = l.log j

theorem deliverClosed_of_open {l : LogLearner}
    (opened : (l.log (l.highestDelivered + 1)).closed = none) (turns : Nat) :
    l.deliverClosed turns = l := by
  cases turns with
  | zero => rfl
  | succ turns => simp [LogLearner.deliverClosed, opened]

/-- Both loops deliver the same, when the log has as many turns as there are instances
that may be closed. -/
theorem Shows.delivers {i : Int} {l : LogLearner} {turns : Nat}
    (returns : DeliverReturns cfg s i t) (h : LearnerSound cfg backed s)
    (next : i = s.highestDelivered + 1) (shows : Shows cfg s l)
    (enough : ∀ j, s.highestDelivered < j → s.highestDelivered + turns ≤ j →
      (s.kept cfg j).closed = none) : Shows cfg t (l.deliverClosed turns) := by
  induction returns generalizing l turns with
  | @stop s i opened =>
      subst next
      rw [deliverClosed_of_open]
      · exact shows
      · rw [← shows.highest, ← shows.kept _ (by omega)]
        simp only [LearnerState.kept, opened]
        split <;> rfl
  | @turn s t i v closed rest ih =>
      subst next
      have hiid := h.next_iid (by simp [isClosed, closed])
      have hclosed : (s.kept cfg (s.highestDelivered + 1)).closed =
          some ((s.slot cfg (s.highestDelivered + 1)).call (s.highestDelivered + 1) v) := by
        rw [kept_of_iid hiid, closed]
        rfl
      cases turns with
      | zero =>
          rw [enough _ (by omega) (by omega)] at hclosed
          cases hclosed
      | succ turns =>
          have hlog := shows.kept (s.highestDelivered + 1) (by omega)
          rw [shows.highest] at hlog
          have hhd : (s.turn cfg (s.highestDelivered + 1) v).highestDelivered =
            s.highestDelivered + 1 := rfl
          rw [shows.highest] at hclosed
          simp only [LogLearner.deliverClosed, ← hlog, hclosed]
          apply ih (h.turn closed) rfl
          · refine ⟨congrArg (· + 1) shows.highest, ?_, ?_⟩
            · rw [← shows.highest, ← shows.delivered]
              rfl
            · intro j hj
              rw [hhd] at hj
              rw [h.kept_turn closed hj]
              exact shows.kept j (by omega)
          · intro j hlow hj
            rw [hhd] at hlow hj
            rw [h.kept_turn closed hlow]
            exact enough j (by omega) (by omega)

theorem Shows.handleLearn {l : LogLearner} (tight : LearnerTight cfg s) (shows : Shows cfg s l)
    (lmsg : LearnMsg) :
    Shows cfg (learnerHandleLearnMsg cfg s lmsg) (l.handleLearn cfg lmsg) := by
  obtain ⟨u, hcollected, hreturns⟩ := tight.handleLearn lmsg
  have hdelivers : ∀ {k : LogLearner} {turns : Nat}, Shows cfg u k →
      (∀ j, u.highestDelivered < j → u.highestDelivered + turns ≤ j →
        (u.kept cfg j).closed = none) →
      Shows cfg (learnerHandleLearnMsg cfg s lmsg) (k.deliverClosed turns) :=
    fun hk => hk.delivers hreturns hcollected.sound (by rw [hcollected.highest])
  simp only [LogLearner.handleLearn]
  have hhd := shows.highest
  by_cases hout : lmsg.iid ≤ l.highestDelivered ∨
      lmsg.iid ≥ l.highestDelivered + cfg.learnerArraySize.size
  · rw [if_pos hout]
    have hkept : ∀ j, s.highestDelivered < j → u.kept cfg j = s.kept cfg j := by
      intro j hj
      rw [hcollected.kept j hj, if_neg (by omega)]
    have hsame : Shows cfg u l := by
      refine ⟨hcollected.highest.trans shows.highest, hcollected.delivered.trans shows.delivered,
        ?_⟩
      intro j hj
      rw [hcollected.highest] at hj
      rw [hkept j hj]
      exact shows.kept j hj
    have hopen : (l.log (l.highestDelivered + 1)).closed = none := by
      rw [← shows.highest, ← shows.kept _ (by omega)]
      exact tight.next_closed
    -- nothing is closed that was not, so that no turn is needed
    rw [← deliverClosed_of_open hopen cfg.learnerArraySize.size]
    apply hdelivers hsame
    intro j hlow hj
    rw [hcollected.highest] at hlow hj
    rw [hkept j hlow, tight.beyond j hj]
    rfl
  · rw [if_neg hout]
    apply hdelivers
    · refine ⟨hcollected.highest.trans shows.highest, hcollected.delivered.trans shows.delivered,
        ?_⟩
      intro j hj
      rw [hcollected.highest] at hj
      rw [hcollected.kept j hj]
      dsimp only
      by_cases hown : j = lmsg.iid
      · subst hown
        rw [if_pos ⟨rfl, by omega⟩, Function.update_self, shows.kept _ hj]
      · rw [if_neg fun h => hown h.1, Function.update_of_ne hown]
        exact shows.kept j hj
    · intro j hlow hj
      rw [hcollected.highest] at hlow hj
      rw [hcollected.kept j hlow, if_neg (by omega), tight.beyond j hj]
      rfl

/-- The learns of a run of events. -/
def LearnerEvent.learn? : LearnerEvent → Option LearnMsg
  | .learn lmsg => some lmsg
  | .lsyncTimer => none

/-- The log learner is handed the same learns. -/
def logRun (cfg : Config) (events : List LearnerEvent) : LogLearner :=
  (events.filterMap LearnerEvent.learn?).foldl (LogLearner.handleLearn cfg) LogLearner.start

theorem learnerRun_shows (cfg : Config) (events : List LearnerEvent) :
    Shows cfg (learnerRun cfg events) (logRun cfg events) := by
  induction events using List.reverseRecOn with
  | nil =>
      refine ⟨rfl, rfl, ?_⟩
      intro j hj
      by_cases hiid : (learnerStart.slot cfg j).iid = j
      · exact kept_of_iid hiid
      · exact kept_of_ne hiid
  | append_singleton before e ih =>
      rw [learnerRun_append]
      cases e with
      | learn lmsg =>
          have hrun : logRun cfg (before ++ [.learn lmsg]) =
              (logRun cfg before).handleLearn cfg lmsg := by
            rw [logRun, List.filterMap_append, List.foldl_append]
            rfl
          rw [hrun]
          exact ih.handleLearn (learnerRun_tight cfg before) lmsg
      | lsyncTimer =>
          have hrun : logRun cfg (before ++ [.lsyncTimer]) = logRun cfg before := by
            rw [logRun, List.filterMap_append, List.foldl_append]
            rfl
          obtain ⟨packets, hpackets⟩ := lsyncCheck_sends cfg (learnerRun cfg before)
          rw [hrun]
          simp only [learnerEvent, hpackets]
          exact ⟨ih.highest, ih.delivered, ih.kept⟩

/-- The ring delivers what the log delivers, in the same order, and a learn changes
nothing that is stored for another undelivered instance. -/
theorem ring_refines_log (cfg : Config) (events : List LearnerEvent) :
    (learnerRun cfg events).delivered = (logRun cfg events).delivered ∧
      ∀ lmsg i, i ≠ lmsg.iid →
        (learnerHandleLearnMsg cfg (learnerRun cfg events) lmsg).highestDelivered < i →
        (learnerHandleLearnMsg cfg (learnerRun cfg events) lmsg).kept cfg i =
          (learnerRun cfg events).kept cfg i := by
  refine ⟨(learnerRun_shows cfg events).delivered, ?_⟩
  intro lmsg i hne hi
  cases ((learnerRun_tight cfg events).event_kept (.learn lmsg)).2 i hi with
  | inl hsame => exact hsame
  | inr hlearned =>
      obtain ⟨l, hl, hiid, -⟩ := hlearned
      cases hl
      exact absurd hiid hne

end Kept
end LibFastPaxos
