import LibFastPaxos.Learner
import Mathlib.Data.Finset.Card

/-!
Runs of one learner. Whatever it delivers was learned, from a quorum of
acceptors for one ballot of the instance; the records that are closed lie in the
window above the last instance delivered, so that delivery meets the records of
the instances it delivers.
-/

namespace LibFastPaxos

/-- A learn carries what is delivered, and a quorum of acceptors has learns of its
ballot. -/
structure DeliverCall.Decided (cfg : Config) (backed : LearnMsg → Prop) (call : DeliverCall) :
    Prop where
  learned : ∃ l, backed l ∧ l.iid = call.iid ∧ l.ballot = call.ballot ∧
    l.proposerId = call.proposer ∧ l.valueSize = call.size ∧
    call.value = memcpy l.value l.valueSize
  quorum : ∃ acceptors : List Nat, acceptors.Nodup ∧
    (∀ a ∈ acceptors, a < cfg.nOfAcceptors ∧ ∃ l, backed l ∧ l.acceptorId = a ∧
      l.iid = call.iid ∧ l.ballot = call.ballot) ∧
    cfg.quorum ≤ acceptors.length

/-- The deliver call of the instance that a record closed with this value leads to. -/
def LearnerRecord.call (r : LearnerRecord) (iid : Int) (value : Bytes) : DeliverCall where
  value := memcpy value r.finalValueSize
  size := r.finalValueSize
  iid := iid
  ballot := r.ballot
  proposer := r.proposerId

structure LearnerRecord.Sound (cfg : Config) (backed : LearnMsg → Prop) (r : LearnerRecord) :
    Prop where
  stored : ∀ (j : Nat) l, r.learns j = some l → backed l ∧ l.acceptorId = j ∧ l.iid = r.iid
  closed : ∀ v, r.finalValue = some v → (r.call r.iid v).Decided cfg backed

/-- The instance may have a record: it is not delivered and in reach of the ring. -/
def LearnerState.InWindow (cfg : Config) (s : LearnerState) (iid : Int) : Prop :=
  s.highestDelivered < iid ∧ iid < s.highestDelivered + cfg.learnerArraySize.size

structure LearnerSound (cfg : Config) (backed : LearnMsg → Prop) (s : LearnerState) : Prop where
  low : -1 ≤ s.highestDelivered
  records : ∀ k, (s.learnerArray k).Sound cfg backed
  window : ∀ k, isClosed (s.learnerArray k) = true →
    cfg.learnerArraySize.index (s.learnerArray k).iid = k ∧
      s.InWindow cfg (s.learnerArray k).iid
  decided : ∀ call ∈ s.delivered, call.Decided cfg backed
  packets : ∀ packet ∈ s.sent, packet.data.WellFormed

section Records

variable {cfg : Config} {backed backed' : LearnMsg → Prop} {r : LearnerRecord}

theorem DeliverCall.Decided.mono {call : DeliverCall} (h : call.Decided cfg backed)
    (weaker : ∀ l, backed l → backed' l) : call.Decided cfg backed' := by
  obtain ⟨⟨l, hl, rest⟩, ⟨acceptors, hnodup, hall, hquorum⟩⟩ := h
  refine ⟨⟨l, weaker l hl, rest⟩, ⟨acceptors, hnodup, ?_, hquorum⟩⟩
  intro a ha
  obtain ⟨hlt, l, hl, rest⟩ := hall a ha
  exact ⟨hlt, l, weaker l hl, rest⟩

theorem LearnerRecord.Sound.mono (h : r.Sound cfg backed) (weaker : ∀ l, backed l → backed' l) :
    r.Sound cfg backed' := by
  refine ⟨?_, fun v hv => (h.closed v hv).mono weaker⟩
  intro j l hl
  obtain ⟨hb, rest⟩ := h.stored j l hl
  exact ⟨weaker l hb, rest⟩

theorem cleanRecord_sound (cfg : Config) (backed : LearnMsg → Prop) (r : LearnerRecord)
    (iid : Int) : (cleanRecord r iid).Sound cfg backed := by
  constructor
  · intro j l hl
    cases hl
  · intro v hv
    cases hv

theorem LearnerRecord.Sound.addLearn (h : r.Sound cfg backed) {lmsg : LearnMsg}
    (learned : backed lmsg) (iid : lmsg.iid = r.iid) {r' : LearnerRecord}
    (added : addLearnToRecord cfg r lmsg = some r') :
    r'.Sound cfg backed ∧ r'.iid = r.iid ∧ r'.finalValue = r.finalValue := by
  unfold addLearnToRecord at added
  split at added
  · cases added
  · next hrange =>
      have hstored : ∀ u, u = { r with
          learns := Function.update r.learns lmsg.acceptorId.toNat (some lmsg) } →
          u.Sound cfg backed ∧ u.iid = r.iid ∧ u.finalValue = r.finalValue := by
        intro u hu
        subst hu
        refine ⟨⟨?_, h.closed⟩, rfl, rfl⟩
        intro j l hl
        by_cases hj : j = lmsg.acceptorId.toNat
        · subst hj
          simp only [Function.update_self, Option.some.injEq] at hl
          subst hl
          exact ⟨learned, by omega, iid⟩
        · simp only [Function.update_of_ne hj] at hl
          exact h.stored j l hl
      dsimp only at added
      split at added
      · exact hstored r' (Option.some.inj added).symm
      · split at added
        · cases added
        · exact hstored r' (Option.some.inj added).symm

end Records

section Preservation

variable {cfg : Config} {backed backed' : LearnMsg → Prop} {s t : LearnerState}

theorem LearnerSound.mono (h : LearnerSound cfg backed s) (weaker : ∀ l, backed l → backed' l) :
    LearnerSound cfg backed' s :=
  ⟨h.low, fun k => (h.records k).mono weaker, h.window,
    fun call hc => (h.decided call hc).mono weaker, h.packets⟩

theorem learnerArray_setSlot (iid : Int) (r : LearnerRecord) (k : Nat) :
    (s.setSlot cfg iid r).learnerArray k =
      if k = cfg.learnerArraySize.index iid then r else s.learnerArray k := by
  simp [LearnerState.setSlot, Function.update_apply]

theorem LearnerSound.setSlot (h : LearnerSound cfg backed s) {iid : Int} {r : LearnerRecord}
    (sound : r.Sound cfg backed)
    (window : isClosed r = true → r.iid = iid ∧ s.InWindow cfg iid) :
    LearnerSound cfg backed (s.setSlot cfg iid r) := by
  refine ⟨h.low, ?_, ?_, h.decided, h.packets⟩
  · intro k
    rw [learnerArray_setSlot]
    split
    · exact sound
    · exact h.records k
  · intro k
    rw [learnerArray_setSlot]
    split
    · next hk =>
        intro hclosed
        obtain ⟨hiid, hin⟩ := window hclosed
        rw [hiid]
        exact ⟨hk.symm, hin⟩
    · exact h.window k

/-- What `update_record` leaves when it stores the learn. -/
structure Updated (cfg : Config) (s : LearnerState) (lmsg : LearnMsg) (t : LearnerState) :
    Prop where
  window : t.InWindow cfg lmsg.iid
  iid_eq : (t.slot cfg lmsg.iid).iid = lmsg.iid
  delivered : t.delivered = s.delivered

/-- What `update_record` can do. -/
inductive UpdateCase (cfg : Config) (s : LearnerState) (lmsg : LearnMsg) :
    LearnerState × Bool → Prop where
  | outside (out : ¬ s.InWindow cfg lmsg.iid) : UpdateCase cfg s lmsg (s, false)
  | first (window : s.InWindow cfg lmsg.iid) (other : (s.slot cfg lmsg.iid).iid ≠ lmsg.iid)
      {r : LearnerRecord}
      (added : addLearnToRecord cfg (cleanRecord (s.slot cfg lmsg.iid) lmsg.iid) lmsg = some r) :
      UpdateCase cfg s lmsg (s.setSlot cfg lmsg.iid r, true)
  | cleaned (window : s.InWindow cfg lmsg.iid) (other : (s.slot cfg lmsg.iid).iid ≠ lmsg.iid)
      (refused : addLearnToRecord cfg (cleanRecord (s.slot cfg lmsg.iid) lmsg.iid) lmsg = none) :
      UpdateCase cfg s lmsg
        (s.setSlot cfg lmsg.iid (cleanRecord (s.slot cfg lmsg.iid) lmsg.iid), false)
  | closed (iid : (s.slot cfg lmsg.iid).iid = lmsg.iid)
      (closed : isClosed (s.slot cfg lmsg.iid) = true) : UpdateCase cfg s lmsg (s, false)
  | next (window : s.InWindow cfg lmsg.iid) (iid : (s.slot cfg lmsg.iid).iid = lmsg.iid)
      (opened : (s.slot cfg lmsg.iid).finalValue = none) {r : LearnerRecord}
      (added : addLearnToRecord cfg (s.slot cfg lmsg.iid) lmsg = some r) :
      UpdateCase cfg s lmsg (s.setSlot cfg lmsg.iid r, true)
  | stale (iid : (s.slot cfg lmsg.iid).iid = lmsg.iid)
      (refused : addLearnToRecord cfg (s.slot cfg lmsg.iid) lmsg = none) :
      UpdateCase cfg s lmsg (s, false)

theorem updateRecord_case (cfg : Config) (s : LearnerState) (lmsg : LearnMsg) :
    UpdateCase cfg s lmsg (updateRecord cfg s lmsg) := by
  simp only [updateRecord]
  split
  · next hfar => exact .outside fun ⟨_, hhigh⟩ => by omega
  · next hfar =>
      split
      · next hlate => exact .outside fun ⟨hlow, _⟩ => by omega
      · next hlate =>
          have hwindow : s.InWindow cfg lmsg.iid := ⟨by omega, by omega⟩
          split
          · next hother =>
              split
              · next r added => exact .first hwindow hother added
              · next refused => exact .cleaned hwindow hother refused
          · next hiid =>
              have hiid : (s.slot cfg lmsg.iid).iid = lmsg.iid := Decidable.of_not_not hiid
              split
              · next hclosed => exact .closed hiid hclosed
              · next hclosed =>
                  split
                  · next r added =>
                      exact .next hwindow hiid (by simpa [isClosed] using hclosed) added
                  · next refused => exact .stale hiid refused

theorem LearnerSound.updateRecord (h : LearnerSound cfg backed s) (lmsg : LearnMsg)
    (learned : backed lmsg) :
    LearnerSound cfg backed (LibFastPaxos.updateRecord cfg s lmsg).1 ∧
      (LibFastPaxos.updateRecord cfg s lmsg).1.delivered = s.delivered ∧
      ((LibFastPaxos.updateRecord cfg s lmsg).2 = true →
        Updated cfg s lmsg (LibFastPaxos.updateRecord cfg s lmsg).1) := by
  have hopen : ∀ r : LearnerRecord, r.Sound cfg backed → r.finalValue = none →
      LearnerSound cfg backed (s.setSlot cfg lmsg.iid r) := by
    intro r hr hnone
    refine h.setSlot hr fun hclosed => ?_
    rw [isClosed, hnone] at hclosed
    cases hclosed
  have hupdated : ∀ r : LearnerRecord, s.InWindow cfg lmsg.iid → r.iid = lmsg.iid →
      Updated cfg s lmsg (s.setSlot cfg lmsg.iid r) := by
    intro r window hiid
    exact ⟨window, by simp [LearnerState.slot, LearnerState.setSlot, hiid], rfl⟩
  have hclean := cleanRecord_sound cfg backed (s.slot cfg lmsg.iid) lmsg.iid
  have houtcome := updateRecord_case cfg s lmsg
  generalize LibFastPaxos.updateRecord cfg s lmsg = res at houtcome ⊢
  cases houtcome with
  | outside | closed | stale => exact ⟨h, rfl, nofun⟩
  | first window other added =>
      obtain ⟨hsound, hiid, hnone⟩ := hclean.addLearn learned rfl added
      exact ⟨hopen _ hsound hnone, rfl, fun _ => hupdated _ window hiid⟩
  | cleaned window other refused => exact ⟨hopen _ hclean rfl, rfl, nofun⟩
  | next window iid opened added =>
      obtain ⟨hsound, hiid, hnone⟩ := (h.records _).addLearn learned iid.symm added
      exact ⟨hopen _ hsound (hnone.trans opened), rfl, fun _ => hupdated _ window (hiid.trans iid)⟩

/-- The acceptors counted are different and have learns of the ballot. -/
theorem LearnerRecord.Sound.counted {r : LearnerRecord} (h : r.Sound cfg backed) (ballot : Int) :
    (learnsWith cfg r ballot).Nodup ∧ ∀ a ∈ learnsWith cfg r ballot, a < cfg.nOfAcceptors ∧
      ∃ l, backed l ∧ l.acceptorId = a ∧ l.iid = r.iid ∧ l.ballot = ballot := by
  refine ⟨List.nodup_range.filter _, ?_⟩
  intro a ha
  obtain ⟨hlt, hany⟩ := List.mem_filter.mp ha
  cases hl : r.learns a with
  | none => simp [hl] at hany
  | some l =>
      obtain ⟨hb, hid, hiid⟩ := h.stored a l hl
      exact ⟨List.mem_range.mp hlt, l, hb, hid, hiid, by simpa [hl] using hany⟩

theorem LearnerSound.checkQuorum (h : LearnerSound cfg backed s) (lmsg : LearnMsg)
    (learned : backed lmsg) (window : s.InWindow cfg lmsg.iid)
    (iid : (s.slot cfg lmsg.iid).iid = lmsg.iid) :
    LearnerSound cfg backed (LibFastPaxos.checkQuorum cfg s lmsg).1 ∧
      (LibFastPaxos.checkQuorum cfg s lmsg).1.delivered = s.delivered ∧
      (LibFastPaxos.checkQuorum cfg s lmsg).1.highestDelivered = s.highestDelivered := by
  simp only [LibFastPaxos.checkQuorum]
  split
  · next hcount =>
      have hrecord : (s.slot cfg lmsg.iid).Sound cfg backed := h.records _
      obtain ⟨hnodup, hall⟩ := hrecord.counted lmsg.ballot
      refine ⟨h.setSlot ⟨hrecord.stored, ?_⟩ fun _ => ⟨iid, window⟩, rfl, rfl⟩
      intro v hv
      cases hv
      refine ⟨⟨lmsg, learned, iid.symm, rfl, rfl, rfl, ?_⟩, ⟨_, hnodup, hall, hcount⟩⟩
      exact memcpy_memcpy lmsg.value lmsg.valueSize
  · exact ⟨h, rfl, rfl⟩

/-! ### Delivery -/

/-- The closed record in the slot of the next instance is the one of that instance. -/
theorem LearnerSound.next_iid (h : LearnerSound cfg backed s)
    (closed : isClosed (s.slot cfg (s.highestDelivered + 1)) = true) :
    (s.slot cfg (s.highestDelivered + 1)).iid = s.highestDelivered + 1 := by
  obtain ⟨hindex, hlow, hhigh⟩ := h.window _ closed
  have hbound := h.low
  simp only [LearnerState.slot] at *
  have hpos := cfg.learnerArraySize.size_pos
  apply cfg.learnerArraySize.eq_of_index_eq (by omega) (by omega) hindex
  · omega
  · omega

/-- The state after a turn of the loop of `deliver_values`. -/
def LearnerState.turn (cfg : Config) (s : LearnerState) (i : Int) (v : Bytes) : LearnerState :=
  { s.setSlot cfg i { s.slot cfg i with finalValue := none } with
    highestDelivered := i
    delivered := (s.slot cfg i).call i v :: s.delivered }

/-- `deliver_values(i)` returns, in the second state. -/
inductive DeliverReturns (cfg : Config) : LearnerState → Int → LearnerState → Prop where
  | stop {s : LearnerState} {i : Int} (opened : (s.slot cfg i).finalValue = none) :
      DeliverReturns cfg s i s
  | turn {s t : LearnerState} {i : Int} {v : Bytes}
      (closed : (s.slot cfg i).finalValue = some v)
      (rest : DeliverReturns cfg (s.turn cfg i v) (i + 1) t) : DeliverReturns cfg s i t

theorem learnerArray_turn (i : Int) (v : Bytes) (k : Nat) :
    (s.turn cfg i v).learnerArray k =
      if k = cfg.learnerArraySize.index i then { s.slot cfg i with finalValue := none }
      else s.learnerArray k :=
  learnerArray_setSlot _ _ k

/-- The slots whose record is closed. -/
def closedSlots (cfg : Config) (s : LearnerState) : Finset Nat :=
  (Finset.range cfg.learnerArraySize.size).filter fun k => isClosed (s.learnerArray k)

/-- A turn opens a slot. -/
theorem closedSlots_turn {i : Int} {v : Bytes} (nonneg : 0 ≤ i)
    (closed : (s.slot cfg i).finalValue = some v) :
    (closedSlots cfg (s.turn cfg i v)).card < (closedSlots cfg s).card := by
  have hclosed : cfg.learnerArraySize.index i ∈ closedSlots cfg s := by
    simp only [closedSlots, Finset.mem_filter, Finset.mem_range]
    refine ⟨cfg.learnerArraySize.index_lt nonneg, ?_⟩
    change isClosed (s.slot cfg i) = true
    simp [isClosed, closed]
  refine Finset.card_lt_card ⟨?_, ?_⟩
  · intro k hk
    simp only [closedSlots, Finset.mem_filter, learnerArray_turn] at hk ⊢
    obtain ⟨hrange, hk⟩ := hk
    refine ⟨hrange, ?_⟩
    split at hk
    · cases hk
    · exact hk
  · intro hsub
    have hopened := hsub hclosed
    simp [closedSlots, learnerArray_turn, isClosed] at hopened

theorem deliverLoop_returns (fuel : Nat) {i : Int} (nonneg : 0 ≤ i)
    (enough : (closedSlots cfg s).card < fuel) :
    DeliverReturns cfg s i (deliverLoop cfg fuel s i) := by
  induction fuel generalizing s i with
  | zero => omega
  | succ fuel ih =>
      cases value : (s.slot cfg i).finalValue with
      | none =>
          simp only [deliverLoop, value]
          exact .stop value
      | some v =>
          simp only [deliverLoop, value]
          refine .turn value (ih (by omega) ?_)
          exact Nat.lt_of_lt_of_le (closedSlots_turn nonneg value) (Nat.le_of_lt_succ enough)

/-- The loop of `deliver_values` always ends, within the turns the model gives it. -/
theorem deliverValues_returns {i : Int} (nonneg : 0 ≤ i) :
    DeliverReturns cfg s i (deliverValues cfg s i) := by
  apply deliverLoop_returns _ nonneg
  have hcard : (closedSlots cfg s).card ≤ cfg.learnerArraySize.size := by
    refine (Finset.card_filter_le _ _).trans ?_
    simp
  omega

theorem LearnerSound.turn (h : LearnerSound cfg backed s) {v : Bytes}
    (value : (s.slot cfg (s.highestDelivered + 1)).finalValue = some v) :
    LearnerSound cfg backed (s.turn cfg (s.highestDelivered + 1) v) := by
  have hiid := h.next_iid (by simp [isClosed, value])
  have hrecord : (s.slot cfg (s.highestDelivered + 1)).Sound cfg backed := h.records _
  have hlow := h.low
  have hhd : (s.turn cfg (s.highestDelivered + 1) v).highestDelivered =
    s.highestDelivered + 1 := rfl
  refine ⟨by omega, ?_, ?_, ?_, h.packets⟩
  · intro k
    rw [learnerArray_turn]
    split
    · exact ⟨hrecord.stored, fun w hw => by cases hw⟩
    · exact h.records k
  · intro k
    rw [learnerArray_turn]
    split
    · intro hc
      cases hc
    · next hk =>
        intro hc
        obtain ⟨hindex, hlo, hhi⟩ := h.window k hc
        -- the slot of the instance delivered is another one
        have hne : (s.learnerArray k).iid ≠ s.highestDelivered + 1 := by
          intro heq
          rw [heq] at hindex
          exact hk hindex.symm
        refine ⟨hindex, ?_, ?_⟩
        · omega
        · omega
  · intro call hc
    cases List.mem_cons.mp hc with
    | inl heq =>
        subst heq
        have hclosed := hrecord.closed v value
        rw [hiid] at hclosed
        exact hclosed
    | inr hold => exact h.decided call hold

theorem LearnerSound.delivers {i : Int} (returns : DeliverReturns cfg s i t)
    (h : LearnerSound cfg backed s) (next : i = s.highestDelivered + 1) :
    LearnerSound cfg backed t ∧ ∃ new, t.delivered = new ++ s.delivered := by
  induction returns with
  | stop opened => exact ⟨h, [], rfl⟩
  | @turn s t i v closed rest ih =>
      subst next
      obtain ⟨hsound, new, hnew⟩ := ih (h.turn closed) rfl
      refine ⟨hsound,
        new ++ [(s.slot cfg (s.highestDelivered + 1)).call (s.highestDelivered + 1) v], ?_⟩
      rw [hnew, List.append_assoc]
      rfl

/-! ### Events -/

theorem LearnerSound.learnerHandleLearnMsg (h : LearnerSound cfg backed s) (lmsg : LearnMsg)
    (learned : backed lmsg) :
    LearnerSound cfg backed (LibFastPaxos.learnerHandleLearnMsg cfg s lmsg) ∧
      ∃ new, (LibFastPaxos.learnerHandleLearnMsg cfg s lmsg).delivered = new ++ s.delivered := by
  unfold LibFastPaxos.learnerHandleLearnMsg
  extract_lets s₁
  have hseen : LearnerSound cfg backed s₁ ∧ s₁.delivered = s.delivered := by
    unfold s₁
    split
    · exact ⟨⟨h.low, h.records, h.window, h.decided, h.packets⟩, rfl⟩
    · exact ⟨h, rfl⟩
  obtain ⟨hs₁, hdel₁⟩ := hseen
  obtain ⟨hs₂, hdel₂, hupdated⟩ := hs₁.updateRecord lmsg learned
  generalize LibFastPaxos.updateRecord cfg s₁ lmsg = res at hs₂ hdel₂ hupdated ⊢
  obtain ⟨s₂, relevant⟩ := res
  cases relevant with
  | false => exact ⟨hs₂, [], hdel₂.trans hdel₁⟩
  | true =>
      obtain ⟨hwindow, hiid, -⟩ := hupdated rfl
      obtain ⟨hs₃, hdel₃, hhd₃⟩ := hs₂.checkQuorum lmsg learned hwindow hiid
      dsimp only at hs₃ hdel₃ hhd₃ ⊢
      generalize LibFastPaxos.checkQuorum cfg s₂ lmsg = res at hs₃ hdel₃ hhd₃ ⊢
      obtain ⟨s₃, closed⟩ := res
      have hold : s₃.delivered = s.delivered := hdel₃.trans (hdel₂.trans hdel₁)
      cases closed with
      | false => exact ⟨hs₃, [], hold⟩
      | true =>
          dsimp only
          split
          · next hnext =>
              have hlow : -1 ≤ s₃.highestDelivered := hs₃.low
              have hnonneg : 0 ≤ lmsg.iid := by omega
              obtain ⟨hs₄, new, hnew⟩ := hs₃.delivers (deliverValues_returns hnonneg) hnext
              exact ⟨hs₄, new, hnew.trans (by rw [hold])⟩
          · exact ⟨hs₃, [], hold⟩

theorem LearnerSound.send (h : LearnerSound cfg backed s) {packet : PaxosMsg}
    (wf : packet.data.WellFormed) :
    LearnerSound cfg backed { s with sent := packet :: s.sent } := by
  refine ⟨h.low, h.records, h.window, h.decided, ?_⟩
  intro p hp
  cases List.mem_cons.mp hp with
  | inl heq =>
      subst heq
      exact wf
  | inr hold => exact h.packets p hold

theorem lsyncPacket_wellFormed {ids : List Int} (nonneg : ∀ i ∈ ids, 0 ≤ i) :
    (lsyncPacket ids).data.WellFormed :=
  ⟨rfl, nonneg⟩

theorem LearnerSound.askInstance (h : LearnerSound cfg backed s) {ids : List Int}
    (ids_nonneg : ∀ i ∈ ids, 0 ≤ i) {i : Int} (nonneg : 0 ≤ i) :
    LearnerSound cfg backed (LibFastPaxos.askInstance cfg (s, ids) i).1 ∧
      (∀ j ∈ (LibFastPaxos.askInstance cfg (s, ids) i).2, 0 ≤ j) ∧
      (LibFastPaxos.askInstance cfg (s, ids) i).1.delivered = s.delivered := by
  have happend : ∀ j ∈ ids ++ [i], 0 ≤ j := by
    intro j hj
    cases List.mem_append.mp hj with
    | inl hold => exact ids_nonneg j hold
    | inr hnew =>
        obtain rfl := List.mem_singleton.mp hnew
        exact nonneg
  simp only [LibFastPaxos.askInstance]
  split
  · split
    · refine ⟨h.send (lsyncPacket_wellFormed happend), ?_, rfl⟩
      intro j hj
      cases hj
    · exact ⟨h, happend, rfl⟩
  · exact ⟨h, ids_nonneg, rfl⟩

/-- An lsync sends, and changes nothing else. -/
theorem lsyncCheck_sends (cfg : Config) (s : LearnerState) :
    ∃ packets, lsyncCheck cfg s = { s with sent := packets ++ s.sent } := by
  have hask : ∀ (u : LearnerState) (ids : List Int) (i : Int),
      ∃ packets, (askInstance cfg (u, ids) i).1 = { u with sent := packets ++ u.sent } := by
    intro u ids i
    simp only [askInstance]
    split
    · split
      · exact ⟨[_], rfl⟩
      · exact ⟨[], rfl⟩
    · exact ⟨[], rfl⟩
  have hloop : ∀ (is : List Int) (acc : LearnerState × List Int),
      ∃ packets, (is.foldl (askInstance cfg) acc).1 =
        { acc.1 with sent := packets ++ acc.1.sent } := by
    intro is
    induction is with
    | nil => exact fun acc => ⟨[], rfl⟩
    | cons i is ih =>
        intro acc
        obtain ⟨first, hfirst⟩ := hask acc.1 acc.2 i
        obtain ⟨rest, hrest⟩ := ih (askInstance cfg acc i)
        refine ⟨rest ++ first, ?_⟩
        rw [List.foldl_cons, hrest, hfirst, List.append_assoc]
  simp only [lsyncCheck]
  split
  · unfold askRetransmission
    extract_lets count missing
    obtain ⟨packets, hpackets⟩ := hloop missing (s, [])
    generalize missing.foldl (askInstance cfg) (s, []) = res at hpackets ⊢
    obtain ⟨u, ids⟩ := res
    dsimp only at hpackets ⊢
    subst hpackets
    split
    · exact ⟨lsyncPacket ids :: packets, rfl⟩
    · exact ⟨packets, rfl⟩
  · exact ⟨[], rfl⟩

theorem LearnerSound.lsyncCheck (h : LearnerSound cfg backed s) :
    LearnerSound cfg backed (LibFastPaxos.lsyncCheck cfg s) ∧
      (LibFastPaxos.lsyncCheck cfg s).delivered = s.delivered := by
  simp only [LibFastPaxos.lsyncCheck]
  split
  · unfold askRetransmission
    extract_lets count missing
    have hmissing : ∀ i ∈ missing, 0 ≤ i := by
      intro i hi
      obtain ⟨n, -, rfl⟩ := List.mem_map.mp hi
      have := h.low
      omega
    have hloop : ∀ (is : List Int) (u : LearnerState) (ids : List Int), (∀ i ∈ is, 0 ≤ i) →
        LearnerSound cfg backed u → (∀ i ∈ ids, 0 ≤ i) →
        LearnerSound cfg backed (is.foldl (LibFastPaxos.askInstance cfg) (u, ids)).1 ∧
          (∀ j ∈ (is.foldl (LibFastPaxos.askInstance cfg) (u, ids)).2, 0 ≤ j) ∧
          (is.foldl (LibFastPaxos.askInstance cfg) (u, ids)).1.delivered = u.delivered := by
      intro is
      induction is with
      | nil =>
          intro u ids _ hu hids
          exact ⟨hu, hids, rfl⟩
      | cons i is ih =>
          intro u ids his hu hids
          obtain ⟨hu', hids', hdel⟩ := hu.askInstance hids (his i List.mem_cons_self)
          obtain ⟨hu'', hids'', hdel'⟩ :=
            ih _ _ (fun j hj => his j (List.mem_cons_of_mem i hj)) hu' hids'
          exact ⟨hu'', hids'', hdel'.trans hdel⟩
    obtain ⟨hs, hids, hdel⟩ := hloop missing s [] hmissing h (fun i hi => by cases hi)
    generalize missing.foldl (LibFastPaxos.askInstance cfg) (s, []) = res at hs hids hdel ⊢
    obtain ⟨u, ids⟩ := res
    dsimp only at hs hids hdel ⊢
    split
    · exact ⟨hs.send (lsyncPacket_wellFormed hids), hdel⟩
    · exact ⟨hs, hdel⟩
  · exact ⟨h, rfl⟩

theorem learnerStart_sound : LearnerSound cfg backed learnerStart := by
  refine ⟨Int.le_refl _, ?_, ?_, ?_, ?_⟩
  · intro k
    constructor
    · intro j l hl
      cases hl
    · intro v hv
      cases hv
  · intro k hk
    cases hk
  · intro call hc
    cases hc
  · intro packet hp
    cases hp

/-! ### Whole runs -/

inductive LearnerEvent where
  | learn (lmsg : LearnMsg)
  | lsyncTimer

def learnerEvent (cfg : Config) (s : LearnerState) : LearnerEvent → LearnerState
  | .learn lmsg => learnerHandleLearnMsg cfg s lmsg
  | .lsyncTimer => lsyncCheck cfg s

def learnerRun (cfg : Config) (events : List LearnerEvent) : LearnerState :=
  events.foldl (learnerEvent cfg) learnerStart

theorem learnerRun_append (before : List LearnerEvent) (e : LearnerEvent) :
    learnerRun cfg (before ++ [e]) = learnerEvent cfg (learnerRun cfg before) e := by
  simp [learnerRun]

theorem LearnerSound.event (h : LearnerSound cfg backed s) {e : LearnerEvent}
    (learned : ∀ lmsg, e = .learn lmsg → backed lmsg) :
    LearnerSound cfg backed (learnerEvent cfg s e) := by
  cases e with
  | learn lmsg => exact (h.learnerHandleLearnMsg lmsg (learned lmsg rfl)).1
  | lsyncTimer => exact h.lsyncCheck.1

theorem learnerRun_sound (events : List LearnerEvent) :
    LearnerSound cfg (fun lmsg => .learn lmsg ∈ events) (learnerRun cfg events) := by
  induction events using List.reverseRecOn with
  | nil => exact learnerStart_sound
  | append_singleton before e ih =>
      rw [learnerRun_append]
      apply LearnerSound.event
      · exact ih.mono fun lmsg h => List.mem_append_left _ h
      · intro lmsg h
        subst h
        exact List.mem_append_right _ List.mem_cons_self

end Preservation
end LibFastPaxos
