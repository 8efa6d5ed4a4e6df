import LibFastPaxos.AcceptorLearns

/-!
The acceptor without a ring: one complete record for every instance, held in
memory for ever. An acceptor with a ring of any size refines it in every run in
which eviction misleads neither a test of `any_enabled` nor a retransmission.
-/

namespace LibFastPaxos

open Transition

structure ReferenceAcceptor where
  records : Int → Option AcceptorRecord
  log : List LogLine
  out : Outbox

namespace ReferenceAcceptor

/-- What an instance without a record starts from. -/
def blank : AcceptorRecord where
  iid := -1
  proposerId := -1
  ballot := -1
  valueBallot := -1
  valueSize := 0
  anyEnabled := false
  value := none

def write (ref : ReferenceAcceptor) (r : AcceptorRecord) (line : LogLine) : ReferenceAcceptor :=
  { ref with records := Function.update ref.records r.iid (some r), log := line :: ref.log }

def prepare (ref : ReferenceAcceptor) (msg : PrepareMsg) : ReferenceAcceptor :=
  let found := ref.records msg.iid
  let r := msg.record blank found
  if found.all fun r => r.ballot < msg.ballot then
    { ref.write r (.promised (promiseOf r)) with out := ref.out.addPromise (promiseOf r) }
  else ref

def accept (cfg : Config) (ref : ReferenceAcceptor) (amsg : AcceptMsg) : ReferenceAcceptor :=
  let found := ref.records amsg.iid
  let r := amsg.record (acceptBase blank found)
  if found.elim (decide (cfg.minBallot ≤ amsg.ballot)) (acceptAllowed cfg · amsg.ballot) then
    { ref.write r (.acceptApplied amsg) with
      out := ref.out.sendLearn (learnPacket ref.out.acceptorId r) }
  else ref

def anyval (ref : ReferenceAcceptor) (iid ballot : Int) : ReferenceAcceptor :=
  let found := ref.records iid
  let r := anyvalRecord (found.getD blank) iid ballot
  if found.all (anyvalAllowed · ballot) then ref.write r (.anyvalApplied iid ballot) else ref

def lsync (ref : ReferenceAcceptor) (iid : Int) : ReferenceAcceptor :=
  match ref.records iid with
  | some r =>
      if r.value.isSome then
        { ref with out := ref.out.sendLearn (learnPacket ref.out.acceptorId r) }
      else ref
  | none => ref

def handleOp (cfg : Config) (ref : ReferenceAcceptor) : AcceptorOp → ReferenceAcceptor
  | .prepare msg => ref.prepare msg
  | .accept amsg => ref.accept cfg amsg
  | .lsync iid => ref.lsync iid
  | .anyval iid ballot => ref.anyval iid ballot

def openMessage (ref : ReferenceAcceptor) : PaxosData → ReferenceAcceptor
  | .prepare _ => { ref with out := ref.out.reset }
  | _ => ref

def closeMessage (ref : ReferenceAcceptor) : PaxosData → ReferenceAcceptor
  | .prepare _ =>
      if ref.out.promiseBatch.count > 0 then { ref with out := ref.out.flush } else ref
  | _ => ref

def handleMessage (cfg : Config) (ref : ReferenceAcceptor) (msg : PaxosMsg) :
    ReferenceAcceptor :=
  closeMessage (msg.data.ops.foldl (handleOp cfg) (openMessage ref msg.data)) msg.data

def start (id : Int) : ReferenceAcceptor where
  records := fun _ => none
  log := []
  out := (acceptorStart id).out

end ReferenceAcceptor

/-! ### The flag and the owner that the debug log accounts for -/

def LogLine.flagFor (iid : Int) : LogLine → Option Bool
  | .promised _ => none
  | .acceptApplied m => if m.iid = iid then some false else none
  | .anyvalApplied i _ => if i = iid then some true else none

/-- An anyval was applied for the instance, and no accept since. -/
def flagSet (iid : Int) (log : List LogLine) : Bool :=
  (log.findSome? (LogLine.flagFor iid)).getD false

/-- The record of an instance has the flag and the owner that the debug log accounts for. -/
structure RecordAccounted (log : List LogLine) (iid : Int) (r : AcceptorRecord) : Prop where
  iid_eq : r.iid = iid
  flag : r.anyEnabled = flagSet iid log
  value : r.value.isSome ↔ r.valueBallot ≠ -1
  owner : r.value.isSome → ∃ m, lastAccept iid log = some m ∧ r.proposerId = m.proposerId

structure ReferenceAcceptor.Accounted (ref : ReferenceAcceptor) : Prop where
  absent : ∀ iid, ref.records iid = none → flagSet iid ref.log = false
  present : ∀ iid r, ref.records iid = some r → RecordAccounted ref.log iid r

section Accounts

variable {log : List LogLine} {iid : Int} {line : LogLine}

theorem flagSet_cons :
    flagSet iid (line :: log) = (line.flagFor iid).getD (flagSet iid log) := by
  rw [flagSet, List.findSome?_cons]
  cases line.flagFor iid <;> rfl

theorem RecordAccounted.cons {r : AcceptorRecord} (h : RecordAccounted log iid r) (line : LogLine)
    (flag : line.flagFor iid = none) (accept : line.acceptFor iid = none) :
    RecordAccounted (line :: log) iid r := by
  refine ⟨h.iid_eq, ?_, h.value, ?_⟩
  · rw [flagSet_cons, flag]
    exact h.flag
  · rw [lastAccept_cons_of_none accept]
    exact h.owner

theorem ReferenceAcceptor.Accounted.write {ref : ReferenceAcceptor} (acc : ref.Accounted)
    {r : AcceptorRecord} {line : LogLine}
    (own : RecordAccounted (line :: ref.log) r.iid r)
    (flag : ∀ i, i ≠ r.iid → line.flagFor i = none)
    (accept : ∀ i, i ≠ r.iid → line.acceptFor i = none) : (ref.write r line).Accounted := by
  constructor
  · intro i hi
    by_cases h : i = r.iid
    · subst h
      simp [ReferenceAcceptor.write] at hi
    · simp only [ReferenceAcceptor.write, Function.update_of_ne h] at hi
      simp only [ReferenceAcceptor.write, flagSet_cons, flag i h]
      exact acc.absent i hi
  · intro i g hg
    by_cases h : i = r.iid
    · subst h
      simp only [ReferenceAcceptor.write, Function.update_self, Option.some.injEq] at hg
      subst hg
      exact own
    · simp only [ReferenceAcceptor.write, Function.update_of_ne h] at hg
      exact (acc.present i g hg).cons line (flag i h) (accept i h)

theorem ReferenceAcceptor.Accounted.prepare {ref : ReferenceAcceptor} (acc : ref.Accounted)
    (msg : PrepareMsg) : (ref.prepare msg).Accounted := by
  simp only [ReferenceAcceptor.prepare]
  split
  · have hw : (ref.write (msg.record ReferenceAcceptor.blank (ref.records msg.iid))
        (.promised (promiseOf (msg.record ReferenceAcceptor.blank
          (ref.records msg.iid))))).Accounted := by
      apply acc.write
      · cases hr : ref.records msg.iid with
        | none =>
            refine ⟨rfl, ?_, by simp [PrepareMsg.record], by simp [PrepareMsg.record]⟩
            rw [flagSet_cons]
            exact (acc.absent msg.iid hr).symm
        | some r =>
            have h := (acc.present msg.iid r hr).cons (.promised
              (promiseOf (msg.record ReferenceAcceptor.blank (some r)))) rfl rfl
            have hiid : (msg.record ReferenceAcceptor.blank (some r)).iid = msg.iid := h.iid_eq
            rw [hiid]
            exact ⟨h.iid_eq, h.flag, h.value, h.owner⟩
      · intro i hi
        rfl
      · intro i hi
        rfl
    exact ⟨hw.absent, hw.present⟩
  · exact acc

theorem ReferenceAcceptor.Accounted.accept {ref : ReferenceAcceptor} (acc : ref.Accounted)
    (cfg : Config) {amsg : AcceptMsg} (wf : amsg.WellFormed) :
    (ref.accept cfg amsg).Accounted := by
  simp only [ReferenceAcceptor.accept]
  split
  · have hw : (ref.write (amsg.record (acceptBase ReferenceAcceptor.blank
        (ref.records amsg.iid))) (.acceptApplied amsg)).Accounted := by
      apply acc.write
      · have hb := wf.ballot_nonneg
        refine ⟨rfl, ?_, ?_, ?_⟩
        · cases ref.records amsg.iid <;>
            simp [AcceptMsg.record, acceptBase, ReferenceAcceptor.blank, flagSet_cons,
              LogLine.flagFor]
        · simp only [AcceptMsg.record, Option.isSome_some, true_iff, ne_eq]
          omega
        · intro _
          exact ⟨amsg, by simp [AcceptMsg.record], rfl⟩
      · intro i hi
        have hne : amsg.iid ≠ i := Ne.symm hi
        simp [LogLine.flagFor, hne]
      · intro i hi
        have hne : amsg.iid ≠ i := Ne.symm hi
        simp [LogLine.acceptFor, hne]
    exact ⟨hw.absent, hw.present⟩
  · exact acc

theorem ReferenceAcceptor.Accounted.anyval {ref : ReferenceAcceptor} (acc : ref.Accounted)
    (iid ballot : Int) : (ref.anyval iid ballot).Accounted := by
  simp only [ReferenceAcceptor.anyval]
  split
  · apply acc.write
    · refine ⟨rfl, ?_, by simp [anyvalRecord], by simp [anyvalRecord]⟩
      simp [anyvalRecord, flagSet_cons, LogLine.flagFor]
    · intro i hi
      have hne : iid ≠ i := Ne.symm hi
      simp [LogLine.flagFor, hne]
    · intro i hi
      rfl
  · exact acc

theorem ReferenceAcceptor.Accounted.handleOp {ref : ReferenceAcceptor} (acc : ref.Accounted)
    (cfg : Config) {op : AcceptorOp} (wf : op.WellFormed) : (ref.handleOp cfg op).Accounted := by
  cases op with
  | prepare msg => exact acc.prepare msg
  | accept amsg => exact acc.accept cfg wf
  | anyval iid ballot => exact acc.anyval iid ballot
  | lsync iid =>
      simp only [ReferenceAcceptor.handleOp, ReferenceAcceptor.lsync]
      split
      · split
        · exact ⟨acc.absent, acc.present⟩
        · exact acc
      · exact acc

end Accounts

/-! ### Refinement -/

structure Refines (s : AcceptorState) (ref : ReferenceAcceptor) : Prop where
  records : ∀ iid, s.stored iid = (ref.records iid).map flatten
  log : s.log = ref.log
  out : s.out = ref.out

/-- Eviction does not show at this operation: where a test rests on `any_enabled`, the
flag read is the one the debug log accounts for; an anyval does not miss its record on
disk; and a record answered from disk holds an accepted value and, in the uninitialised
`proposer_id`, its proposer. -/
def CacheSound (cfg : Config) (env : DiskEnv) (s : AcceptorState) : AcceptorOp → Prop
  | .prepare _ => True
  | .accept amsg => ∀ r, readRecord cfg env s amsg.iid = some r →
      ¬ (r.ballot ≤ amsg.ballot ∧ cfg.minBallot ≤ amsg.ballot) →
      r.anyEnabled = flagSet amsg.iid s.log
  | .anyval iid ballot => (s.evicted cfg iid = true → readRecord cfg env s iid ≠ none) ∧
      ∀ r, readRecord cfg env s iid = some r → ¬ r.ballot ≤ ballot →
        r.anyEnabled = flagSet iid s.log
  | .lsync iid => s.evicted cfg iid = true → ∀ r, readRecord cfg env s iid = some r →
      r.valueBallot ≠ -1 ∧ ∀ m, lastAccept iid s.log = some m → r.proposerId = m.proposerId

section Simulation

variable {cfg : Config} {env : DiskEnv} {s : AcceptorState} {ref : ReferenceAcceptor}

/-- A promise is built from fields that the disk image has. -/
theorem promiseOf_congr {r r' : AcceptorRecord} (h : flatten r = flatten r') :
    promiseOf r = promiseOf r' := by
  have hiid := congrArg FlatRecord.iid h
  have hballot := congrArg FlatRecord.ballot h
  have hvb := congrArg FlatRecord.valueBallot h
  have hsize := congrArg FlatRecord.valueSize h
  have hvalue := congrArg FlatRecord.value h
  simp only [flatten] at hiid hballot hvb hsize hvalue
  simp only [promiseOf, hiid, hballot, hvb, hvalue]
  rw [hsize]

theorem flatten_prepare_record (msg : PrepareMsg) (b : AcceptorRecord)
    (found : Option AcceptorRecord) :
    flatten (msg.record b found) = msg.image (found.map flatten) := by
  cases found with
  | none => simp [flatten, PrepareMsg.record, PrepareMsg.image, memcpy_zero]
  | some r => rfl

/-- The two acceptors find records with one image, or none. -/
theorem Refines.read (h : Refines s ref) (coh : s.Coherent cfg) (env : DiskEnv) {iid : Int}
    (nonneg : 0 ≤ iid) :
    (readRecord cfg env s iid).map flatten = (ref.records iid).map flatten := by
  rw [coh.read_eq env nonneg, h.records]

theorem Refines.consult (h : Refines s ref) (iid : Int) : Refines (s.consult cfg iid) ref := by
  refine ⟨?_, by simpa using h.log, ?_⟩
  · rw [consult_stored]
    exact h.records
  · rw [consult_out]
    exact h.out

/-- Both acceptors write one record of the instance and add one debug line. -/
theorem Refines.write (h : Refines s ref) {iid : Int} {f : FlatRecord} {r : AcceptorRecord}
    {line : LogLine} {t : AcceptorState} {o : Outbox} (hr : r.iid = iid) (himg : flatten r = f)
    (stored : t.stored = Function.update s.stored iid (some f)) (log : t.log = line :: s.log)
    (out : t.out = o) : Refines t { ref.write r line with out := o } := by
  subst hr
  refine ⟨?_, ?_, out⟩
  · intro i
    rw [stored]
    by_cases hi : i = r.iid
    · subst hi
      simp [ReferenceAcceptor.write, himg]
    · simp only [ReferenceAcceptor.write, Function.update_of_ne hi]
      exact h.records i
  · simp [ReferenceAcceptor.write, log, h.log]

theorem Refines.prepare (h : Refines s ref) (coh : s.Coherent cfg)
    (puts : env.PutsSucceed) {msg : PrepareMsg} (wf : msg.WellFormed) :
    Refines (handlePrepare cfg env s msg) (ref.prepare msg) := by
  have hread := h.read coh env wf.iid_nonneg
  have hgranted : msg.Granted (readRecord cfg env s msg.iid) ↔
      (ref.records msg.iid).all (fun r => r.ballot < msg.ballot) = true := by
    cases hr : readRecord cfg env s msg.iid <;> cases hf : ref.records msg.iid <;>
      simp_all [PrepareMsg.Granted, flatten]
  simp only [ReferenceAcceptor.prepare]
  by_cases g : msg.Granted (readRecord cfg env s msg.iid)
  · obtain ⟨hiid, himg, -, -⟩ := prepare_record_spec env coh wf
    have himg' : flatten (msg.record ReferenceAcceptor.blank (ref.records msg.iid)) =
        msg.image (s.stored msg.iid) := by
      rw [flatten_prepare_record, ← h.records]
    have hiid' : (msg.record ReferenceAcceptor.blank (ref.records msg.iid)).iid = msg.iid := by
      have := congrArg FlatRecord.iid (himg'.trans himg.symm)
      exact Eq.trans this hiid
    have hp := promiseOf_congr (himg.trans himg'.symm)
    have hballot := wf.ballot_nonneg
    rw [if_pos (hgranted.mp g), handlePrepare_granted (fun _ _ => by omega) g, ← hp]
    apply h.write hiid' himg'
    · rw [← himg, ← writeBack_stored cfg puts hiid]
      exact stored_of_accDb (by simp)
    · simp [writeBack_frame]
    · rw [addPromiseToSendBuffer_out, writeBack_out, h.out]
  · rw [if_neg (fun hall => g (hgranted.mpr hall)), handlePrepare_refused g]
    exact h.consult msg.iid

theorem Refines.accept_test (h : Refines s ref) (coh : s.Coherent cfg) (acc : ref.Accounted)
    {amsg : AcceptMsg} (wf : amsg.WellFormed) (sound : CacheSound cfg env s (.accept amsg)) :
    amsg.Applied cfg (readRecord cfg env s amsg.iid) ↔
      (ref.records amsg.iid).elim (decide (cfg.minBallot ≤ amsg.ballot))
        (acceptAllowed cfg · amsg.ballot) = true := by
  have hread := h.read coh env wf.iid_nonneg
  cases hr : readRecord cfg env s amsg.iid with
  | none =>
      rw [hr] at hread
      rw [Option.map_eq_none_iff.mp hread.symm]
      simp [AcceptMsg.Applied]
  | some r =>
      rw [hr] at hread
      obtain ⟨r', hr', himg⟩ := Option.map_eq_some_iff.mp hread.symm
      have hballot : r'.ballot = r.ballot := congrArg FlatRecord.ballot himg
      rw [hr']
      simp only [AcceptMsg.Applied, Option.elim_some, acceptAllowed, hballot, Bool.or_eq_true,
        Bool.and_eq_true, decide_eq_true_eq, ge_iff_le]
      by_cases hpass : r.ballot ≤ amsg.ballot ∧ cfg.minBallot ≤ amsg.ballot
      · simp only [hpass, and_self, or_true]
      · have hflag := sound r hr hpass
        rw [h.log, ← (acc.present amsg.iid r' hr').flag] at hflag
        rw [hflag]

theorem Refines.anyval_test (h : Refines s ref) (coh : s.Coherent cfg) (acc : ref.Accounted)
    {iid ballot : Int} (nonneg : 0 ≤ iid) (sound : CacheSound cfg env s (.anyval iid ballot)) :
    AnyvalApplied ballot (readRecord cfg env s iid) ↔
      (ref.records iid).all (anyvalAllowed · ballot) = true := by
  have hread := h.read coh env nonneg
  cases hr : readRecord cfg env s iid with
  | none =>
      rw [hr] at hread
      rw [Option.map_eq_none_iff.mp hread.symm]
      simp [AnyvalApplied]
  | some r =>
      rw [hr] at hread
      obtain ⟨r', hr', himg⟩ := Option.map_eq_some_iff.mp hread.symm
      have hballot : r'.ballot = r.ballot := congrArg FlatRecord.ballot himg
      rw [hr']
      simp only [AnyvalApplied, Option.all_some, anyvalAllowed, hballot, Bool.or_eq_true,
        decide_eq_true_eq, ge_iff_le]
      by_cases hpass : r.ballot ≤ ballot
      · simp only [hpass, or_true]
      · have hflag := sound.2 r hr hpass
        rw [h.log, ← (acc.present iid r' hr').flag] at hflag
        rw [hflag]

theorem Refines.accept (h : Refines s ref) (coh : s.Coherent cfg) (acc : ref.Accounted)
    (puts : env.PutsSucceed) {amsg : AcceptMsg} (wf : amsg.WellFormed)
    (sound : CacheSound cfg env s (.accept amsg)) :
    Refines (handleAccept cfg env s amsg) (ref.accept cfg amsg) := by
  have hread := h.read coh env wf.iid_nonneg
  have happlied : amsg.Applied cfg (readRecord cfg env s amsg.iid) ↔
      (ref.records amsg.iid).elim (decide (cfg.minBallot ≤ amsg.ballot))
        (acceptAllowed cfg · amsg.ballot) = true :=
    h.accept_test coh acc wf sound
  simp only [ReferenceAcceptor.accept]
  by_cases g : amsg.Applied cfg (readRecord cfg env s amsg.iid)
  · obtain ⟨hflat, -, -⟩ := accept_record_spec wf
      (acceptBase (blankRecord cfg s amsg.iid) (readRecord cfg env s amsg.iid))
    obtain ⟨hflat', -, -⟩ := accept_record_spec wf
      (acceptBase ReferenceAcceptor.blank (ref.records amsg.iid))
    rw [if_pos (happlied.mp g), handleAccept_applied g]
    have hiid : (amsg.record (acceptBase ReferenceAcceptor.blank
      (ref.records amsg.iid))).iid = amsg.iid := rfl
    have hbase : (amsg.record (acceptBase (blankRecord cfg s amsg.iid)
      (readRecord cfg env s amsg.iid))).iid = amsg.iid := rfl
    refine h.write hiid hflat' ?_ ?_ ?_
    · rw [← hflat, ← writeBack_stored cfg puts hbase]
      exact stored_of_accDb (by simp)
    · simp [writeBack_frame, Effect.logged?]
    · dsimp only
      rw [sendLearnMessage_out, emit_out _ rfl, diskForceSyncrony_out, writeBack_out, h.out]
      have hid : ((diskForceSyncrony cfg env (writeBack cfg env s amsg.iid
          (amsg.record (acceptBase (blankRecord cfg s amsg.iid)
            (readRecord cfg env s amsg.iid))))).emit
              (.log (.acceptApplied amsg))).acceptorId = ref.out.acceptorId := by
        simp only [emit_frame, diskForceSyncrony_frame, writeBack_frame]
        exact congrArg Outbox.acceptorId h.out
      rw [hid]
      rfl
  · rw [if_neg (fun hall => g (happlied.mpr hall)), handleAccept_refused g]
    exact h.consult amsg.iid

theorem Refines.anyval (h : Refines s ref) (coh : s.Coherent cfg) (acc : ref.Accounted)
    (puts : env.PutsSucceed) {iid ballot : Int} (nonneg : 0 ≤ iid)
    (sound : CacheSound cfg env s (.anyval iid ballot)) :
    ∃ t, handleAnyval cfg env s iid ballot = some t ∧ Refines t (ref.anyval iid ballot) := by
  have htest := h.anyval_test coh acc nonneg sound
  simp only [ReferenceAcceptor.anyval]
  by_cases g : AnyvalApplied ballot (readRecord cfg env s iid)
  · obtain ⟨hflat, -⟩ := anyval_record_spec
      ((readRecord cfg env s iid).getD (blankRecord cfg s iid)) iid ballot
    obtain ⟨hflat', -⟩ := anyval_record_spec
      ((ref.records iid).getD ReferenceAcceptor.blank) iid ballot
    have hiid : (anyvalRecord ((ref.records iid).getD ReferenceAcceptor.blank) iid ballot).iid =
      iid := rfl
    rw [if_pos (htest.mp g), handleAnyval_applied sound.1 g]
    refine ⟨_, rfl, h.write (o := ref.out) hiid hflat' ?_ ?_ ?_⟩
    · rw [← hflat]
      exact writeBack_stored cfg puts rfl
    · simp [writeBack_frame, Effect.logged?]
    · rw [emit_out _ rfl, writeBack_out, h.out]
  · rw [if_neg (fun hall => g (htest.mpr hall)), handleAnyval_refused g]
    exact ⟨_, rfl, h.consult iid⟩

/-- The slot and the reference record have one owner; from disk it is a sound leftover. -/
theorem Refines.lsync (h : Refines s ref) (coh : s.Coherent cfg) (acc : ref.Accounted)
    (learns : LearnsKept s) {iid : Int} (nonneg : 0 ≤ iid)
    (sound : CacheSound cfg env s (.lsync iid)) :
    Refines (handleLsync cfg env s iid) (ref.lsync iid) := by
  have hread := h.read coh env nonneg
  rw [handleLsync_eq]
  simp only [ReferenceAcceptor.lsync]
  cases hr : readRecord cfg env s iid with
  | none =>
      rw [hr] at hread
      rw [Option.map_eq_none_iff.mp hread.symm]
      exact h.consult iid
  | some r =>
      rw [hr] at hread
      obtain ⟨r', hr', himg⟩ := Option.map_eq_some_iff.mp hread.symm
      rw [hr']
      have hacc := acc.present iid r' hr'
      have hvb : r'.valueBallot = r.valueBallot := congrArg FlatRecord.valueBallot himg
      have hvalue : r.value.isSome ↔ r'.value.isSome := by
        rw [hacc.value, hvb]
        cases hev : s.evicted cfg iid with
        | false => exact (coh.read_some nonneg hr).value hev
        | true => simp [(sound hev r hr).1, value_of_evicted hr hev]
      dsimp only
      by_cases hv : r.value.isSome
      · have howner : r.proposerId = r'.proposerId := by
          obtain ⟨m, hm, hid⟩ := hacc.owner (hvalue.mp hv)
          rw [hid]
          rw [← h.log] at hm
          cases hev : s.evicted cfg iid with
          | false => exact slot_owner learns nonneg hr hev hv hm
          | true => exact (sound hev r hr).2 m hm
        have hpacket : learnPacket s.acceptorId r = learnPacket ref.out.acceptorId r' := by
          have hid : s.acceptorId = ref.out.acceptorId := congrArg Outbox.acceptorId h.out
          have hiid := congrArg FlatRecord.iid himg
          have hballot := congrArg FlatRecord.ballot himg
          have hsize := congrArg FlatRecord.valueSize himg
          have hbytes := congrArg FlatRecord.value himg
          simp only [flatten] at hiid hballot hsize hbytes
          simp only [learnPacket, learnOf, hid, howner, hiid, hballot, ← hbytes]
          rw [hsize]
        rw [if_pos hv, if_pos (hvalue.mp hv)]
        refine ⟨?_, ?_, ?_⟩
        · rw [stored_of_accDb (t := sendLearnMessage (s.consult cfg iid) r) (s := s) (by simp)]
          exact h.records
        · simpa using h.log
        · rw [sendLearnMessage_out, consult_out, consult_frame.2.2.1, hpacket, h.out]
      · rw [if_neg hv, if_neg (fun hv' => hv (hvalue.mpr hv'))]
        exact h.consult iid

/-- The relation between an acceptor and the reference that every operation keeps. -/
structure Simulated (cfg : Config) (s : AcceptorState) (ref : ReferenceAcceptor) : Prop where
  coherent : s.Coherent cfg
  learns : LearnsKept s
  accounted : ref.Accounted
  refines : Refines s ref

theorem Simulated.step (sim : Simulated cfg s ref) (puts : env.PutsSucceed) {op : AcceptorOp}
    (wf : op.WellFormed) (sound : CacheSound cfg env s op) :
    ∃ t, handleOp cfg env s op = some t ∧ Simulated cfg t (ref.handleOp cfg op) := by
  have hrefines : ∃ t, handleOp cfg env s op = some t ∧ Refines t (ref.handleOp cfg op) := by
    cases op with
    | prepare msg =>
        exact ⟨_, rfl, sim.refines.prepare sim.coherent puts wf⟩
    | accept amsg =>
        exact ⟨_, rfl, sim.refines.accept sim.coherent sim.accounted puts wf sound⟩
    | lsync iid =>
        exact ⟨_, rfl, sim.refines.lsync sim.coherent sim.accounted sim.learns wf sound⟩
    | anyval iid ballot =>
        exact sim.refines.anyval sim.coherent sim.accounted puts wf.1 sound
  obtain ⟨t, run, refines⟩ := hrefines
  exact ⟨t, run, (handleOp_outcome sim.coherent puts wf run).1, sim.learns.step sim.coherent wf run,
    sim.accounted.handleOp cfg wf, refines⟩

/-- Flushing and resetting the send buffer. -/
theorem Simulated.congr {t : AcceptorState} {o : Outbox} (sim : Simulated cfg s ref)
    (arr : t.acceptorArray = s.acceptorArray) (db : t.accDb = s.accDb)
    (id : t.acceptorId = s.acceptorId) (log : t.log = s.log) (sent : s.sent ⊆ t.sent)
    (out : t.out = o) : Simulated cfg t { ref with out := o } := by
  refine ⟨sim.coherent.congr arr db, sim.learns.congr arr id log sent,
    ⟨sim.accounted.absent, sim.accounted.present⟩, ?_, ?_, out⟩
  · rw [stored_of_accDb db]
    exact sim.refines.records
  · rw [log]
    exact sim.refines.log

theorem Simulated.message (sim : Simulated cfg s ref) (puts : env.PutsSucceed) {msg : PaxosMsg}
    (wf : msg.data.WellFormed) (meets : MessageMeets cfg env (CacheSound cfg env) s msg) :
    ∃ t, handleMessage cfg env s msg = some t ∧ Simulated cfg t (ref.handleMessage cfg msg) := by
  have hopen : Simulated cfg (openMessage s msg.data) (ref.openMessage msg.data) := by
    cases hd : msg.data with
    | prepare b =>
        refine sim.congr (by simp [openMessage]) (by simp [openMessage]) (by simp [openMessage])
          (by simp [openMessage]) (by simp [openMessage]) ?_
        simp only [openMessage, resetPromiseBatch_out, sim.refines.out]
    | accept _ | lsync _ | promise _ | learn _ | anyval _ => exact sim
  have hstep : ∀ s ref op, op.WellFormed → Simulated cfg s ref → CacheSound cfg env s op →
      ∃ t, handleOp cfg env s op = some t ∧ Simulated cfg t (ref.handleOp cfg op) :=
    fun _ _ _ wf sim sound => sim.step puts wf sound
  obtain ⟨u, hu, hsim⟩ :=
    Meets.simulates (Simulated cfg) hstep (PaxosData.ops_wellFormed wf) hopen meets
  refine ⟨closeMessage cfg env u msg.data, ?_, ?_⟩
  · rw [handleMessage_eq, hu]
    rfl
  · simp only [ReferenceAcceptor.handleMessage]
    cases hd : msg.data with
    | prepare b =>
        rw [hd] at hsim
        have hcount : u.promiseBatch.count = _ :=
          congrArg (fun o => o.promiseBatch.count) hsim.refines.out
        simp only [closeMessage, ReferenceAcceptor.closeMessage, hcount]
        split
        · apply hsim.congr (by simp) (by simp) (by simp) (by simp) (by simp)
          rw [flushSendBuffer_out, diskForceSyncrony_out, hsim.refines.out]
        · exact hsim
    | accept _ | lsync _ | promise _ | learn _ | anyval _ =>
        rw [hd] at hsim
        exact hsim

theorem simulated_start (cfg : Config) (id : Int) :
    Simulated cfg (acceptorStart id) (ReferenceAcceptor.start id) := by
  refine ⟨acceptorStart_coherent cfg id, acceptorStart_learnsKept id, ⟨?_, ?_⟩, ?_, rfl, rfl⟩
  · intro iid _
    rfl
  · intro iid r hr
    cases hr
  · intro iid
    rfl

/-- The acceptor with a ring refines the one without. -/
theorem acceptor_refines_reference (puts : env.PutsSucceed) (id : Int) {msgs : List PaxosMsg}
    (sound : RunMeets cfg env (CacheSound cfg env) (acceptorStart id) msgs) :
    ∃ s, runMessages cfg env (acceptorStart id) msgs = some s ∧
      Simulated cfg s
        (msgs.foldl (ReferenceAcceptor.handleMessage cfg) (ReferenceAcceptor.start id)) := by
  refine Meets.simulates (P := fun _ => True) (Simulated cfg) ?_ (fun _ _ => trivial)
    (simulated_start cfg id) sound
  intro s ref msg _ sim meets
  exact sim.message puts meets.1 meets.2

end Simulation

/-! ### Two ring sizes -/

def Config.withAcceptorArraySize (cfg : Config) (size : RingSize) : Config :=
  { cfg with acceptorArraySize := size }

/-- Acceptors with rings of two sizes, over disks that leave different bytes in the fields
a lookup does not fill, send the same datagrams when eviction shows in neither of them. -/
theorem cache_transparent {cfg : Config} {size₁ size₂ : RingSize} {env₁ env₂ : DiskEnv}
    (puts₁ : env₁.PutsSucceed) (puts₂ : env₂.PutsSucceed) (id : Int) {msgs : List PaxosMsg}
    (sound₁ : RunMeets (cfg.withAcceptorArraySize size₁) env₁
      (CacheSound (cfg.withAcceptorArraySize size₁) env₁) (acceptorStart id) msgs)
    (sound₂ : RunMeets (cfg.withAcceptorArraySize size₂) env₂
      (CacheSound (cfg.withAcceptorArraySize size₂) env₂) (acceptorStart id) msgs) :
    ∃ s₁ s₂, runMessages (cfg.withAcceptorArraySize size₁) env₁ (acceptorStart id) msgs = some s₁ ∧
      runMessages (cfg.withAcceptorArraySize size₂) env₂ (acceptorStart id) msgs = some s₂ ∧
      s₁.sent = s₂.sent := by
  obtain ⟨s₁, run₁, sim₁⟩ := acceptor_refines_reference puts₁ id sound₁
  obtain ⟨s₂, run₂, sim₂⟩ := acceptor_refines_reference puts₂ id sound₂
  -- the reference acceptor does not look at the size of the ring
  have hout : s₁.out = s₂.out := sim₁.refines.out.trans sim₂.refines.out.symm
  exact ⟨s₁, s₂, run₁, run₂, congrArg Outbox.sent hout⟩

def oneSlot : RingSize := ⟨1, 0, rfl⟩
def twoSlots : RingSize := ⟨2, 1, rfl⟩

/-- With one slot the second accept evicts the first, and the prepare is served from disk. -/
def evictedPrepareRun : List PaxosMsg :=
  [acceptPacket ⟨0, 20, 1, 3, [7]⟩, acceptPacket ⟨1, 20, 1, 3, [8]⟩, preparePacket [⟨0, 30⟩]]

theorem evictedPrepareRun_cacheSound (size : RingSize) (hsize : size = oneSlot ∨ size = twoSlots) :
    RunMeets (Config.shipped.withAcceptorArraySize size) quietDisk
      (CacheSound (Config.shipped.withAcceptorArraySize size) quietDisk) (acceptorStart 0)
      evictedPrepareRun := by
  cases hsize with
  | inl h | inr h =>
      subst h
      refine ⟨⟨by decide, ⟨?_, fun _ _ => trivial⟩⟩, fun t ht => ?_⟩
      · intro r hr
        cases hr
      · obtain rfl := Option.some.inj ht
        refine ⟨⟨by decide, ⟨?_, fun _ _ => trivial⟩⟩, fun t ht => ?_⟩
        · intro r hr
          cases hr
        · obtain rfl := Option.some.inj ht
          exact ⟨⟨by decide, ⟨trivial, fun _ _ => trivial⟩⟩, fun _ _ => trivial⟩

theorem cache_transparent_evictedPrepare :
    ∃ s₁ s₂,
      runMessages (Config.shipped.withAcceptorArraySize oneSlot) quietDisk (acceptorStart 0)
        evictedPrepareRun = some s₁ ∧
      runMessages (Config.shipped.withAcceptorArraySize twoSlots) quietDisk (acceptorStart 0)
        evictedPrepareRun = some s₂ ∧
      s₁.sent = s₂.sent :=
  cache_transparent quietDisk_putsSucceed quietDisk_putsSucceed 0
    (evictedPrepareRun_cacheSound oneSlot (.inl rfl))
    (evictedPrepareRun_cacheSound twoSlots (.inr rfl))

/-- The anyval of instance 0 is evicted before the fast accept arrives. -/
def evictedFlagRun : List PaxosMsg :=
  [anyvalPacket 20 [0], preparePacket [⟨1, 20⟩], acceptPacket ⟨0, 11, 1, 1, [7]⟩]

theorem evictedFlagRun_not_transparent :
    (∀ msg ∈ evictedFlagRun, msg.data.WellFormed) ∧
      (runMessages (Config.shipped.withAcceptorArraySize oneSlot) quietDisk (acceptorStart 0)
        evictedFlagRun).map AcceptorState.sent ≠
      (runMessages (Config.shipped.withAcceptorArraySize twoSlots) quietDisk (acceptorStart 0)
        evictedFlagRun).map AcceptorState.sent := by
  decide

end LibFastPaxos
