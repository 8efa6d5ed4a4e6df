import LibFastPaxos.LearnerRepeats
import LibFastPaxos.Wire

/-!
`learner_handle_learner_msg` on the bytes of its buffer. A size field that does not match
is printed, and the datagram is handled all the same.
-/

namespace LibFastPaxos

open Memory

section Receive

variable (cfg : Config) (s : LearnerState) (buf : UdpBuffer) (d : Datagram)

def learnerHandleLearnerMsg : Option LearnerState :=
  let mem := buf.receive d
  (intAt mem 4).bind fun type =>
  if type = paxosLearn then (readLearn mem sizeofPaxosMsg).map (learnerHandleLearnMsg cfg s)
  else some s

/-- The learner takes learns only. -/
def learnerHandles : PaxosData → LearnerState
  | .learn lmsg => learnerHandleLearnMsg cfg s lmsg
  | .prepare _ | .accept _ | .lsync _ | .promise _ | .anyval _ => s

end Receive

/-- A learn that is neither stored nor the newest instance seen. -/
structure RefusesLearn (cfg : Config) (s : LearnerState) (lmsg : LearnMsg) : Prop where
  seen : lmsg.iid ≤ s.highestSeen
  useless : s.InWindow cfg lmsg.iid → (s.slot cfg lmsg.iid).iid = lmsg.iid ∧
    (isClosed (s.slot cfg lmsg.iid) = true ∨ addLearnToRecord cfg (s.slot cfg lmsg.iid) lmsg = none)

/-- The datagram is stopped by its type or by the tests on the learn. -/
inductive LearnerStops (cfg : Config) (s : LearnerState) (buf : UdpBuffer) (d : Datagram) :
    Prop where
  | type {type : Int} (read : intAt (buf.receive d) 4 = some type) (ignored : type ≠ paxosLearn)
  | refused {lmsg : LearnMsg} (read : readLearn (buf.receive d) sizeofPaxosMsg = some lmsg)
      (refused : RefusesLearn cfg s lmsg)

/-- The bytes are those of the message, and its acceptor id is an index. -/
structure LearnerEncodes (cfg : Config) (d : Datagram) (msg : PaxosMsg) : Prop extends
    d.Encodes msg where
  index : ∀ lmsg, msg.data = .learn lmsg → cfg.IsAcceptor lmsg.acceptorId

/-- A well-formed datagram is handled as the message it encodes, any other changes nothing. -/
structure LearnerReceives (cfg : Config) (s : LearnerState) (buf : UdpBuffer) (d : Datagram) :
    Prop where
  encoded : ∀ msg, LearnerEncodes cfg d msg →
    learnerHandleLearnerMsg cfg s buf d = some (learnerHandles cfg s msg.data)
  malformed : (∀ msg, ¬ LearnerEncodes cfg d msg) →
    learnerHandleLearnerMsg cfg s buf d = some s

section Learns

variable {cfg : Config} {s t : LearnerState} {lmsg : LearnMsg}

theorem checkQuorum_learns (k : Nat) :
    ((checkQuorum cfg s lmsg).1.learnerArray k).learns = (s.learnerArray k).learns := by
  simp only [checkQuorum]
  split
  · rw [learnerArray_setSlot]
    split
    · next hk =>
        subst hk
        rfl
    · rfl
  · rfl

theorem deliverLoop_learns (fuel : Nat) (i : Int) (k : Nat) :
    ((deliverLoop cfg fuel s i).learnerArray k).learns = (s.learnerArray k).learns := by
  induction fuel generalizing s i with
  | zero => rfl
  | succ fuel ih =>
      rw [deliverLoop]
      cases (s.slot cfg i).finalValue with
      | none => rfl
      | some value =>
          refine (ih (i + 1)).trans ?_
          change ((s.setSlot cfg i
            { s.slot cfg i with finalValue := none }).learnerArray k).learns = _
          rw [learnerArray_setSlot]
          split
          · next hk =>
              subst hk
              rfl
          · rfl

/-- A learn that was stored stays in its slot. -/
theorem handleLearn_learns (seen : lmsg.iid ≤ s.highestSeen)
    (stores : (updateRecord cfg s lmsg).2 = true) (k : Nat) :
    ((learnerHandleLearnMsg cfg s lmsg).learnerArray k).learns =
      ((updateRecord cfg s lmsg).1.learnerArray k).learns := by
  simp only [learnerHandleLearnMsg]
  rw [if_neg (Int.not_lt.mpr seen)]
  generalize updateRecord cfg s lmsg = res at stores ⊢
  obtain ⟨v, relevant⟩ := res
  obtain rfl : relevant = true := stores
  have hquorum : ((checkQuorum cfg v lmsg).1.learnerArray k).learns = _ := checkQuorum_learns k
  dsimp only at hquorum ⊢
  generalize checkQuorum cfg v lmsg = res at hquorum ⊢
  obtain ⟨w, closed⟩ := res
  cases closed with
  | false => exact hquorum
  | true =>
      dsimp only
      split
      · exact (deliverLoop_learns _ _ _).trans hquorum
      · exact hquorum

theorem updateRecord_stored {r : LearnerRecord} (window : s.InWindow cfg lmsg.iid)
    (own : (s.slot cfg lmsg.iid).iid = lmsg.iid) (opened : ¬ isClosed (s.slot cfg lmsg.iid))
    (added : addLearnToRecord cfg (s.slot cfg lmsg.iid) lmsg = some r) :
    updateRecord cfg s lmsg = (s.setSlot cfg lmsg.iid r, true) := by
  have hcase := updateRecord_case cfg s lmsg
  generalize updateRecord cfg s lmsg = res at hcase ⊢
  cases hcase with
  | outside out => exact absurd window out
  | first _ other _ => exact absurd own other
  | cleaned _ other _ => exact absurd own other
  | closed _ closed => exact absurd closed opened
  | next _ _ _ added' =>
      obtain rfl := Option.some.inj (added.symm.trans added')
      rfl
  | stale _ refused =>
      rw [added] at refused
      cases refused

/-- A learn that is stored was not there before. -/
theorem addLearnToRecord_learns {r r' : LearnerRecord}
    (added : addLearnToRecord cfg r lmsg = some r') : r'.learns ≠ r.learns := by
  rw [addLearnToRecord_eq r lmsg { learns := r.learns, closed := none } rfl] at added
  obtain ⟨fresh, hr⟩ := Option.ite_none_right_eq_some.mp added
  intro same
  have hnew : r.learns lmsg.acceptorId.toNat = some lmsg := by
    rw [← same, ← Option.some.inj hr]
    exact Function.update_self _ _ _
  simp [InstanceLog.fresh, hnew] at fresh

theorem learner_unchanged_iff :
    learnerHandleLearnMsg cfg s lmsg = s ↔ RefusesLearn cfg s lmsg := by
  constructor
  · intro same
    have hseen := handleLearn_highestSeen cfg s lmsg
    rw [same] at hseen
    have hseen : lmsg.iid ≤ s.highestSeen := by omega
    refine ⟨hseen, fun window => ?_⟩
    have hiid := handleLearn_iids cfg s lmsg (cfg.learnerArraySize.index lmsg.iid)
    rw [same, takenBy, if_pos ⟨rfl, window⟩] at hiid
    refine ⟨hiid, ?_⟩
    by_cases closed : isClosed (s.slot cfg lmsg.iid) = true
    · exact .inl closed
    · cases added : addLearnToRecord cfg (s.slot cfg lmsg.iid) lmsg with
      | none => exact .inr rfl
      | some r =>
          have hupdate := updateRecord_stored window hiid closed added
          have hlearns := handleLearn_learns hseen (by rw [hupdate])
            (cfg.learnerArraySize.index lmsg.iid)
          rw [same, hupdate, learnerArray_setSlot, if_pos rfl] at hlearns
          exact absurd hlearns.symm (addLearnToRecord_learns added)
  · rintro ⟨seen, useless⟩
    have hupdate : updateRecord cfg s lmsg = (s, false) := by
      have hcase := updateRecord_case cfg s lmsg
      generalize updateRecord cfg s lmsg = res at hcase ⊢
      cases hcase with
      | outside _ => rfl
      | first window other _ => exact absurd (useless window).1 other
      | cleaned window other _ => exact absurd (useless window).1 other
      | closed _ _ => rfl
      | next window _ opened added =>
          cases (useless window).2 with
          | inl closed => simp [isClosed, opened] at closed
          | inr refused =>
              rw [refused] at added
              cases added
      | stale _ _ => rfl
    simp only [learnerHandleLearnMsg]
    rw [if_neg (Int.not_lt.mpr seen), hupdate]

end Learns

/-! ### Datagrams -/

section Datagrams

variable {cfg : Config} {s : LearnerState} {buf : UdpBuffer} {d : Datagram}

/-- The header of a learn lies in the buffer, whatever the datagram. -/
theorem readLearn_receive (buf : UdpBuffer) (d : Datagram) :
    ∃ lmsg, readLearn (buf.receive d) sizeofPaxosMsg = some lmsg := by
  obtain ⟨acceptorId, hacceptor⟩ := receive_int buf d sizeofPaxosMsg (by decide) (by decide)
  obtain ⟨iid, hiid⟩ := receive_int buf d (sizeofPaxosMsg + 4) (by decide) (by decide)
  obtain ⟨ballot, hballot⟩ := receive_int buf d (sizeofPaxosMsg + 8) (by decide) (by decide)
  obtain ⟨proposer, hproposer⟩ :=
    receive_int buf d (sizeofPaxosMsg + 12) (by decide) (by decide)
  obtain ⟨valueSize, hvalueSize⟩ :=
    receive_int buf d (sizeofPaxosMsg + 16) (by decide) (by decide)
  simp only [readLearn, hacceptor, hiid, hballot, hproposer, hvalueSize, Option.bind_some,
    Option.map_some]
  exact ⟨_, rfl⟩

theorem learnerHandle_unchanged_iff (cfg : Config) (s : LearnerState) (buf : UdpBuffer)
    (d : Datagram) :
    learnerHandleLearnerMsg cfg s buf d = some s ↔ LearnerStops cfg s buf d := by
  obtain ⟨type, htype⟩ := receive_int buf d 4 (by decide) (by decide)
  obtain ⟨lmsg, hread⟩ := readLearn_receive buf d
  simp only [learnerHandleLearnerMsg, htype, Option.bind_some]
  by_cases hlearn : type = paxosLearn
  · rw [if_pos hlearn, hread, Option.map_some, Option.some.injEq, learner_unchanged_iff]
    constructor
    · exact .refused hread
    · intro h
      cases h with
      | type read ignored =>
          obtain rfl := Option.some.inj (read.symm.trans htype)
          exact absurd hlearn ignored
      | refused read refused =>
          obtain rfl := Option.some.inj (read.symm.trans hread)
          exact refused
  · rw [if_neg hlearn]
    exact ⟨fun _ => .type htype hlearn, fun _ => rfl⟩

theorem learnerHandle_encoded (cfg : Config) (s : LearnerState) (buf : UdpBuffer) {msg : PaxosMsg}
    (h : LearnerEncodes cfg d msg) :
    learnerHandleLearnerMsg cfg s buf d = some (learnerHandles cfg s msg.data) := by
  obtain ⟨-, htype, hdata⟩ := h.header buf
  have hfits := h.fits
  simp only [learnerHandleLearnerMsg, htype, Option.bind_some]
  cases hlearn : msg.data with
  | learn lmsg =>
      rw [hlearn] at hfits hdata
      simp only [PaxosData.type, if_true, readLearn_of_holds hfits hdata, Option.map_some,
        learnerHandles]
  | prepare _ | accept _ | lsync _ | promise _ | anyval _ => rfl

/-- A learner handles well-formed datagrams as the messages they encode and is left alone by
a malformed one exactly when its type or the tests on the learn stop it. -/
theorem learner_receives_iff (cfg : Config) (s : LearnerState) (buf : UdpBuffer) (d : Datagram) :
    LearnerReceives cfg s buf d ↔
      (∃ msg, LearnerEncodes cfg d msg) ∨ LearnerStops cfg s buf d := by
  constructor
  · intro h
    by_cases encoded : ∃ msg, LearnerEncodes cfg d msg
    · exact .inl encoded
    · exact .inr ((learnerHandle_unchanged_iff cfg s buf d).mp
        (h.malformed (not_exists.mp encoded)))
  · intro h
    refine ⟨fun msg hmsg => learnerHandle_encoded cfg s buf hmsg, fun malformed => ?_⟩
    cases h with
    | inl encoded =>
        obtain ⟨msg, hmsg⟩ := encoded
        exact absurd hmsg (malformed msg)
    | inr stops => exact (learnerHandle_unchanged_iff cfg s buf d).mpr stops

end Datagrams

end LibFastPaxos
