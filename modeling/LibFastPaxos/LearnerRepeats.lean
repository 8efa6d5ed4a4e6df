import LibFastPaxos.LearnerLog

/-!
A learn that was handled is refused from then on. While its instance is not delivered the
slot keeps the instance, and its record is closed or holds a learn of the acceptor that is
as new; once the instance is delivered it lies below the window.
-/

namespace LibFastPaxos

instance (cfg : Config) (s : LearnerState) (iid : Int) : Decidable (s.InWindow cfg iid) :=
  inferInstanceAs (Decidable (_ ∧ _))

section Slots

variable {cfg : Config} {s t : LearnerState} {lmsg : LearnMsg}

theorem addLearnToRecord_iid {r r' : LearnerRecord}
    (added : addLearnToRecord cfg r lmsg = some r') : r'.iid = r.iid := by
  rw [addLearnToRecord_eq r lmsg { learns := r.learns, closed := none } rfl] at added
  obtain ⟨-, hr⟩ := Option.ite_none_right_eq_some.mp added
  rw [← Option.some.inj hr]

/-- In a slot an instance of the window takes the place of the one there. -/
def takenBy (cfg : Config) (s : LearnerState) (iid : Int) (k : Nat) : Int :=
  if k = cfg.learnerArraySize.index iid ∧ s.InWindow cfg iid then iid else (s.learnerArray k).iid

theorem setSlot_takenBy {iid : Int} {r : LearnerRecord} (window : s.InWindow cfg iid)
    (own : r.iid = iid) (k : Nat) :
    ((s.setSlot cfg iid r).learnerArray k).iid = takenBy cfg s iid k := by
  rw [learnerArray_setSlot, takenBy]
  by_cases hk : k = cfg.learnerArraySize.index iid
  · rw [if_pos hk, if_pos ⟨hk, window⟩, own]
  · rw [if_neg hk, if_neg fun h => hk h.1]

theorem takenBy_of_iid {iid : Int} (own : (s.slot cfg iid).iid = iid) (k : Nat) :
    takenBy cfg s iid k = (s.learnerArray k).iid := by
  rw [takenBy]
  split
  · next h =>
      rw [h.1]
      exact own.symm
  · rfl

theorem updateRecord_iids (k : Nat) :
    ((updateRecord cfg s lmsg).1.learnerArray k).iid = takenBy cfg s lmsg.iid k := by
  have hcase := updateRecord_case cfg s lmsg
  generalize updateRecord cfg s lmsg = res at hcase ⊢
  cases hcase with
  | outside out => exact (if_neg fun h => out h.2).symm
  | first window other added =>
      exact setSlot_takenBy window (addLearnToRecord_iid added) k
  | cleaned window other refused => exact setSlot_takenBy window rfl k
  | closed iid closed => exact (takenBy_of_iid iid k).symm
  | next window iid opened added =>
      exact setSlot_takenBy window ((addLearnToRecord_iid added).trans iid) k
  | stale iid refused => exact (takenBy_of_iid iid k).symm

theorem checkQuorum_iids (k : Nat) :
    ((checkQuorum cfg s lmsg).1.learnerArray k).iid = (s.learnerArray k).iid := by
  simp only [checkQuorum]
  split
  · rw [learnerArray_setSlot]
    split
    · next hk =>
        subst hk
        rfl
    · rfl
  · rfl

theorem deliverLoop_iids (fuel : Nat) (i : Int) (k : Nat) :
    ((deliverLoop cfg fuel s i).learnerArray k).iid = (s.learnerArray k).iid := by
  induction fuel generalizing s i with
  | zero => rfl
  | succ fuel ih =>
      rw [deliverLoop]
      cases (s.slot cfg i).finalValue with
      | none => rfl
      | some value =>
          refine (ih (i + 1)).trans ?_
          change ((s.setSlot cfg i { s.slot cfg i with finalValue := none }).learnerArray k).iid = _
          rw [learnerArray_setSlot]
          split
          · next hk =>
              subst hk
              rfl
          · rfl

/-- A learn gives the slot to its own instance and leaves the others to theirs. -/
theorem handleLearn_iids (cfg : Config) (s : LearnerState) (lmsg : LearnMsg) (k : Nat) :
    ((learnerHandleLearnMsg cfg s lmsg).learnerArray k).iid = takenBy cfg s lmsg.iid k := by
  unfold learnerHandleLearnMsg
  extract_lets u
  have hu : takenBy cfg u lmsg.iid k = takenBy cfg s lmsg.iid k := by
    unfold u
    split <;> rfl
  have hupdate : ((updateRecord cfg u lmsg).1.learnerArray k).iid = _ := updateRecord_iids k
  rw [hu] at hupdate
  generalize updateRecord cfg u lmsg = res at hupdate ⊢
  obtain ⟨v, relevant⟩ := res
  cases relevant with
  | false => exact hupdate
  | true =>
      have hquorum : ((checkQuorum cfg v lmsg).1.learnerArray k).iid = _ := checkQuorum_iids k
      dsimp only at hquorum ⊢
      generalize checkQuorum cfg v lmsg = res at hquorum ⊢
      obtain ⟨w, closed⟩ := res
      cases closed with
      | false => exact hquorum.trans hupdate
      | true =>
          dsimp only
          split
          · exact (deliverLoop_iids _ _ _).trans (hquorum.trans hupdate)
          · exact hquorum.trans hupdate

/-! ### What the other variables become -/

theorem updateRecord_highestSeen :
    (updateRecord cfg s lmsg).1.highestSeen = s.highestSeen := by
  have hcase := updateRecord_case cfg s lmsg
  generalize updateRecord cfg s lmsg = res at hcase ⊢
  cases hcase <;> rfl

theorem checkQuorum_highestSeen : (checkQuorum cfg s lmsg).1.highestSeen = s.highestSeen := by
  simp only [checkQuorum]
  split <;> rfl

theorem deliverLoop_highestSeen (fuel : Nat) (i : Int) :
    (deliverLoop cfg fuel s i).highestSeen = s.highestSeen := by
  induction fuel generalizing s i with
  | zero => rfl
  | succ fuel ih =>
      rw [deliverLoop]
      cases (s.slot cfg i).finalValue with
      | none => rfl
      | some value => exact ih (i + 1)

theorem handleLearn_highestSeen (cfg : Config) (s : LearnerState) (lmsg : LearnMsg) :
    (learnerHandleLearnMsg cfg s lmsg).highestSeen = max s.highestSeen lmsg.iid := by
  unfold learnerHandleLearnMsg
  extract_lets u
  have hu : u.highestSeen = max s.highestSeen lmsg.iid := by
    unfold u
    split
    · next hnew => exact (max_eq_right (Int.le_of_lt hnew)).symm
    · next hold => exact (max_eq_left (Int.not_lt.mp hold)).symm
  have hupdate : (updateRecord cfg u lmsg).1.highestSeen = _ := updateRecord_highestSeen
  generalize updateRecord cfg u lmsg = res at hupdate ⊢
  obtain ⟨v, relevant⟩ := res
  cases relevant with
  | false => exact hupdate.trans hu
  | true =>
      have hquorum : (checkQuorum cfg v lmsg).1.highestSeen = _ := checkQuorum_highestSeen
      dsimp only at hquorum ⊢
      generalize checkQuorum cfg v lmsg = res at hquorum ⊢
      obtain ⟨w, closed⟩ := res
      have hw : w.highestSeen = max s.highestSeen lmsg.iid := hquorum.trans (hupdate.trans hu)
      cases closed with
      | false => exact hw
      | true =>
          dsimp only
          split
          · exact (deliverLoop_highestSeen _ _).trans hw
          · exact hw

end Slots

/-! ### Repeats -/

/-- The record has a learn as new as this one, or no use for it. -/
structure LearnerState.Holds (cfg : Config) (s : LearnerState) (lmsg : LearnMsg) : Prop where
  own : (s.slot cfg lmsg.iid).iid = lmsg.iid
  refused : (s.kept cfg lmsg.iid).closed.isSome ∨ (s.kept cfg lmsg.iid).fresh cfg lmsg = false

/-- What is true of a learn that was handled once. -/
structure LearnerState.Had (cfg : Config) (s : LearnerState) (lmsg : LearnMsg) : Prop where
  seen : lmsg.iid ≤ s.highestSeen
  near : lmsg.iid < s.highestDelivered + cfg.learnerArraySize.size
  held : s.highestDelivered < lmsg.iid → s.Holds cfg lmsg

section Repeats

variable {cfg : Config} {s t : LearnerState} {lmsg m : LearnMsg} {e : InstanceLog}

theorem LearnerState.Had.refuses (h : s.Had cfg m) : learnerHandleLearnMsg cfg s m = s := by
  have hseen := h.seen
  have hnear := h.near
  have hupdate : updateRecord cfg s m = (s, false) := by
    rw [updateRecord, if_neg (by omega)]
    by_cases hlate : m.iid ≤ s.highestDelivered
    · rw [if_pos hlate]
    · rw [if_neg hlate]
      obtain ⟨own, refused⟩ := h.held (by omega)
      dsimp only
      rw [if_neg (not_not_intro own)]
      have hkept := kept_of_iid own
      cases refused with
      | inl closed =>
          rw [hkept] at closed
          rw [if_pos (by simpa [isClosed] using closed)]
      | inr stale =>
          have hadd : addLearnToRecord cfg (s.slot cfg m.iid) m = none := by
            rw [addLearnToRecord_eq _ m (s.kept cfg m.iid) (by rw [hkept]), stale]
            rfl
          rw [hadd]
          split <;> rfl
  simp only [learnerHandleLearnMsg]
  rw [if_neg (by omega), hupdate]

/-- A newer learn of the acceptor refuses it as well. -/
theorem fresh_store_of_not_fresh (stale : e.fresh cfg m = false) (fresh : e.fresh cfg lmsg = true) :
    (e.store lmsg).fresh cfg m = false := by
  simp only [InstanceLog.fresh, Bool.and_eq_false_imp, decide_eq_true_eq, Bool.and_eq_true] at *
  intro hrange
  have hstale := stale hrange
  obtain ⟨hrange', hnew⟩ := fresh
  by_cases hsame : m.acceptorId.toNat = lmsg.acceptorId.toNat
  · rw [hsame] at hstale ⊢
    simp only [InstanceLog.store, Function.update_self, Option.all_some, decide_eq_false_iff_not]
    cases hold : e.learns lmsg.acceptorId.toNat with
    | none => simp [hold] at hstale
    | some old =>
        simp only [hold, Option.all_some, decide_eq_false_iff_not, decide_eq_true_eq] at hstale hnew
        omega
  · simpa [InstanceLog.store, Function.update_of_ne hsame] using hstale

theorem refused_learn
    (refused : e.closed.isSome ∨ e.fresh cfg m = false) :
    (e.learn cfg lmsg).closed.isSome ∨ (e.learn cfg lmsg).fresh cfg m = false := by
  cases refused with
  | inl closed =>
      rw [learn_of_closed closed]
      exact .inl closed
  | inr stale =>
      cases hclosed : e.closed with
      | some call =>
          rw [learn_of_closed (by simp [hclosed])]
          exact .inr stale
      | none =>
          cases hfresh : e.fresh cfg lmsg with
          | false =>
              rw [learn_of_not_fresh hfresh]
              exact .inr stale
          | true =>
              rw [learn_of_fresh hclosed hfresh]
              split
              · exact .inl rfl
              · exact .inr (fresh_store_of_not_fresh stale hfresh)

/-- A learn refuses itself once it has been looked at. -/
theorem refused_of_learn :
    (e.learn cfg m).closed.isSome ∨ (e.learn cfg m).fresh cfg m = false := by
  cases hclosed : e.closed with
  | some call =>
      rw [learn_of_closed (by simp [hclosed])]
      exact .inl (by simp [hclosed])
  | none =>
      cases hfresh : e.fresh cfg m with
      | false =>
          rw [learn_of_not_fresh hfresh]
          exact .inr hfresh
      | true =>
          rw [learn_of_fresh hclosed hfresh]
          split
          · exact .inl rfl
          · right
            simp [InstanceLog.fresh, InstanceLog.store]

theorem LearnerTight.had (h : LearnerTight cfg s)
    (near : m.iid < s.highestDelivered + cfg.learnerArraySize.size) :
    (learnerHandleLearnMsg cfg s m).Had cfg m := by
  obtain ⟨hle, hkept⟩ := h.event_kept (.learn m)
  have hle : s.highestDelivered ≤ (learnerHandleLearnMsg cfg s m).highestDelivered := hle
  refine ⟨?_, by omega, ?_⟩
  · rw [handleLearn_highestSeen]
    exact le_max_right _ _
  · intro hlate
    have hwindow : s.InWindow cfg m.iid := ⟨by omega, near⟩
    refine ⟨(handleLearn_iids cfg s m _).trans (if_pos ⟨rfl, hwindow⟩), ?_⟩
    obtain ⟨u, hcollected, hreturns⟩ := h.handleLearn m
    obtain ⟨-, -, hsame⟩ := hcollected.sound.delivers_kept hreturns (by rw [hcollected.highest])
    rw [hsame m.iid hlate, hcollected.kept m.iid hwindow.1, if_pos ⟨rfl, near⟩]
    exact refused_of_learn

/-- No event makes a learn that was handled look new again. -/
theorem LearnerState.Had.event (had : s.Had cfg m) (h : LearnerTight cfg s) (e : LearnerEvent) :
    (learnerEvent cfg s e).Had cfg m := by
  have hseen := had.seen
  have hnear := had.near
  obtain ⟨hle, hkept⟩ := h.event_kept e
  cases e with
  | lsyncTimer =>
      obtain ⟨packets, hpackets⟩ := lsyncCheck_sends cfg s
      simp only [learnerEvent, hpackets]
      exact ⟨hseen, hnear, fun hlate => ⟨(had.held hlate).own, (had.held hlate).refused⟩⟩
  | learn lmsg =>
      have hle : s.highestDelivered ≤ (learnerHandleLearnMsg cfg s lmsg).highestDelivered := hle
      simp only [learnerEvent] at hkept ⊢
      refine ⟨?_, by omega, ?_⟩
      · rw [handleLearn_highestSeen]
        exact hseen.trans (le_max_left _ _)
      · intro hlate
        obtain ⟨own, refused⟩ := had.held (by omega)
        constructor
        · refine (handleLearn_iids cfg s lmsg _).trans ?_
          rw [takenBy]
          split
          · next htaken =>
              -- the two instances lie in one window
              obtain ⟨hindex, hlow, hhigh⟩ := htaken
              have := h.sound.low
              exact cfg.learnerArraySize.eq_of_index_eq (by omega) (by omega) hindex.symm
                (by omega) (by omega)
          · exact own
        · cases hkept m.iid hlate with
          | inl hsame => rwa [hsame]
          | inr hlearned =>
              obtain ⟨l, -, -, hlearned⟩ := hlearned
              rw [hlearned]
              exact refused_learn refused

theorem learnerRun_had (cfg : Config) (before after : List LearnerEvent) (m : LearnMsg)
    (near : m.iid < (learnerRun cfg before).highestDelivered + cfg.learnerArraySize.size) :
    (learnerRun cfg (before ++ .learn m :: after)).Had cfg m := by
  induction after using List.reverseRecOn with
  | nil =>
      rw [learnerRun_append]
      exact (learnerRun_tight cfg before).had near
  | append_singleton after e ih =>
      have hsplit :
          before ++ .learn m :: (after ++ [e]) = (before ++ .learn m :: after) ++ [e] := by
        simp
      rw [hsplit, learnerRun_append]
      exact ih.event (learnerRun_tight cfg _) e

/-- A learn that arrives again, after any further events, leaves the learner as it is. -/
theorem repeated_learn_harmless (cfg : Config) (before after : List LearnerEvent) (m : LearnMsg)
    (near : m.iid < (learnerRun cfg before).highestDelivered + cfg.learnerArraySize.size) :
    learnerHandleLearnMsg cfg (learnerRun cfg (before ++ .learn m :: after)) m =
      learnerRun cfg (before ++ .learn m :: after) :=
  (learnerRun_had cfg before after m near).refuses

end Repeats

/-- The learn of one acceptor for the first instance. -/
def firstLearn (acceptorId : Int) : LearnMsg where
  acceptorId := acceptorId
  iid := 0
  ballot := 20
  proposerId := 3
  valueSize := 1
  value := [7]

theorem repeated_learn_harmless_delivered :
    (learnerRun .shipped [.learn (firstLearn 0), .learn (firstLearn 1),
        .learn (firstLearn 2)]).highestDelivered = 0 ∧
      learnerHandleLearnMsg .shipped
          (learnerRun .shipped ([] ++ .learn (firstLearn 0) ::
            [.learn (firstLearn 1), .learn (firstLearn 2)])) (firstLearn 0) =
        learnerRun .shipped ([] ++ .learn (firstLearn 0) ::
          [.learn (firstLearn 1), .learn (firstLearn 2)]) :=
  ⟨by decide +kernel, repeated_learn_harmless .shipped [] _ (firstLearn 0) (by decide)⟩

end LibFastPaxos
