import LibFastPaxos.AcceptorDurability
import LibFastPaxos.PromiseRoundTrip

/-!
The records on disk as bytes. `disk_update_record` fills in five fields of a struct that
`malloc` returns, and `disk_lookup_record` casts what the store returns to that struct;
whatever the other bytes are, a lookup finds what the last put that succeeded has stored.
-/

namespace LibFastPaxos

open Memory Transition Durability

/-- `sizeof(acceptor_record) - sizeof(int*)`, which is where the value starts. -/
def sizeofFlatRecord : Int := 24

/-- So many bytes with any contents. -/
def malloc (leftovers : Nat → UInt8) (n : Int) : Bytes := (List.range n.toNat).map leftovers

/-- `flat_rec` of `disk_update_record`; `proposer_id` and `any_enabled`, at 4 and at 20, are
not assigned. -/
def flatRec (leftovers : Nat → UInt8) (f : FlatRecord) : Bytes :=
  writeAll (malloc leftovers (sizeofFlatRecord + f.valueSize))
    [(0, ints [f.iid]), (8, ints [f.ballot]), (12, ints [f.valueBallot]), (16, ints [f.valueSize]),
      (sizeofFlatRecord, f.value)]

/-- The copy that `disk_lookup_record` returns, with two fields as `malloc` left them. -/
def readFlatRec (proposerId : Int) (anyEnabled : Bool) (mem : Bytes) : Option AcceptorRecord :=
  (intAt mem 0).bind fun iid =>
  (intAt mem 8).bind fun ballot =>
  (intAt mem 12).bind fun valueBallot =>
  (intAt mem 16).map fun valueSize =>
    { iid := iid
      proposerId := proposerId
      ballot := ballot
      valueBallot := valueBallot
      valueSize := valueSize
      anyEnabled := anyEnabled
      value := some (bytesAt mem sizeofFlatRecord valueSize) }

/-- The data under a record number after the puts of a trace. The leftovers are those that
`malloc` returned for the put at a position of the trace. -/
def dataAt (heap : Nat → Nat → UInt8) (recno : Int) : List Effect → Option Bytes
  | [] => none
  | .put f ret :: older =>
      if ret = 0 ∧ f.iid + 1 = recno then some (flatRec (heap older.length) f)
      else dataAt heap recno older
  | .get _ :: older | .sync _ :: older | .log _ :: older | .send _ :: older =>
      dataAt heap recno older

/-- A record that the flattened struct can hold. -/
structure FlatRecord.Storable (f : FlatRecord) : Prop where
  iid : FitsInt32 f.iid
  ballot : FitsInt32 f.ballot
  valueBallot : FitsInt32 f.valueBallot
  valueSize : FitsInt32 f.valueSize
  valueSize_eq : f.valueSize = f.value.length

section Format

variable {leftovers : Nat → UInt8} {f : FlatRecord}

theorem malloc_length (leftovers : Nat → UInt8) {n : Int} (nonneg : 0 ≤ n) :
    ((malloc leftovers n).length : Int) = n := by
  rw [malloc, List.length_map, List.length_range]
  omega

/-- Where the fields of the struct are. -/
theorem flatRec_holds (leftovers : Nat → UInt8) (storable : f.Storable) :
    ((flatRec leftovers f).length : Int) = sizeofFlatRecord + f.valueSize ∧
      Holds (flatRec leftovers f) 0 (ints [f.iid]) ∧
      Holds (flatRec leftovers f) 8 (ints [f.ballot]) ∧
      Holds (flatRec leftovers f) 12 (ints [f.valueBallot]) ∧
      Holds (flatRec leftovers f) 16 (ints [f.valueSize]) ∧
      Holds (flatRec leftovers f) sizeofFlatRecord f.value := by
  have hsize := storable.valueSize_eq
  have hmem := malloc_length leftovers (n := sizeofFlatRecord + f.valueSize)
    (by simp only [sizeofFlatRecord]; omega)
  simp only [flatRec]
  generalize malloc leftovers (sizeofFlatRecord + f.valueSize) = mem at hmem ⊢
  simp only [sizeofFlatRecord] at hmem ⊢
  have inside : ∀ w ∈ [((0 : Int), ints [f.iid]), (8, ints [f.ballot]), (12, ints [f.valueBallot]),
      (16, ints [f.valueSize]), (24, f.value)], Inside mem.length w := by
    simp only [List.forall_mem_cons, Inside, ints_length, List.length_cons, List.length_nil]
    refine ⟨?_, ?_, ?_, ?_, ?_, fun _ h => absurd h List.not_mem_nil⟩ <;> omega
  have apart : [((0 : Int), ints [f.iid]), (8, ints [f.ballot]), (12, ints [f.valueBallot]),
      (16, ints [f.valueSize]), (24, f.value)].Pairwise Apart := by
    simp [Apart]
  have hall := holds_writeAll inside apart
  simp only [List.forall_mem_cons] at hall
  exact ⟨by rw [writeAll_length inside]; exact hmem, hall.1, hall.2.1, hall.2.2.1, hall.2.2.2.1,
    hall.2.2.2.2.1⟩

/-- A lookup copies what was stored. -/
theorem readFlatRec_flatRec (leftovers : Nat → UInt8) (storable : f.Storable) (proposerId : Int)
    (anyEnabled : Bool) :
    readFlatRec proposerId anyEnabled (flatRec leftovers f) =
      some
        { iid := f.iid
          proposerId := proposerId
          ballot := f.ballot
          valueBallot := f.valueBallot
          valueSize := f.valueSize
          anyEnabled := anyEnabled
          value := some (memcpy f.value f.valueSize) } := by
  obtain ⟨-, hiid, hballot, hvalueBallot, hvalueSize, hvalue⟩ :=
    flatRec_holds leftovers storable
  have read : ∀ {off x : Int}, FitsInt32 x → Holds (flatRec leftovers f) off (ints [x]) →
      intAt (flatRec leftovers f) off = some x := by
    intro off x fits h
    simpa using h.intAt (by simpa using fits) 0 rfl
  have hbytes := hvalue.bytesAt
  rw [← storable.valueSize_eq] at hbytes
  simp only [readFlatRec, read storable.iid hiid, read storable.ballot hballot,
    read storable.valueBallot hvalueBallot, read storable.valueSize hvalueSize, hbytes,
    memcpy_of_length storable.valueSize_eq, Option.bind_some, Option.map_some]

end Format

/-! ### The store of a run -/

section Runs

variable {cfg : Config} {env : DiskEnv} {s t u : AcceptorState} {heap : Nat → Nat → UInt8}

/-- Nothing is put on the way. -/
structure Unwritten (s t : AcceptorState) : Prop where
  db : t.accDb = s.accDb
  trace : ∃ new, t.trace = new ++ s.trace ∧ ∀ e ∈ new, diskJournal.wrote e = none

theorem QuietStep.unwritten (h : QuietStep s t) : Unwritten s t := by
  obtain ⟨new, htrace, hquiet⟩ := h.trace
  exact ⟨h.db, new, htrace, fun e he => (hquiet e he).1⟩

theorem Unwritten.emit (s : AcceptorState) {e : Effect} (silent : diskJournal.wrote e = none) :
    Unwritten s (s.emit e) :=
  ⟨rfl, [e], rfl, fun _ he => List.mem_singleton.mp he ▸ silent⟩

theorem Unwritten.trans (h : Unwritten s t) (h' : Unwritten t u) : Unwritten s u := by
  obtain ⟨new, htrace, hnew⟩ := h.trace
  obtain ⟨new', htrace', hnew'⟩ := h'.trace
  refine ⟨h'.db.trans h.db, new' ++ new, by rw [htrace', htrace, List.append_assoc], ?_⟩
  intro e he
  exact (List.mem_append.mp he).elim (hnew' e) (hnew e)

theorem makeRoom_unwritten (cfg : Config) (env : DiskEnv) (s : AcceptorState)
    (promiseSize : Int) : Unwritten s (makeRoom cfg env s promiseSize) := by
  have hreset : ∀ u : AcceptorState,
      Unwritten u (if u.sendBufferSize = 0 then resetPromiseBatch u else u) := by
    intro u
    split <;> exact ⟨rfl, [], rfl, fun _ h => absurd h List.not_mem_nil⟩
  simp only [makeRoom]
  refine Unwritten.trans ?_ (hreset _)
  split
  · exact (diskForceSyncrony_quiet cfg env s).unwritten.trans
      ⟨rfl, [_], rfl, fun _ he => List.mem_singleton.mp he ▸ rfl⟩
  · exact (QuietStep.refl s).unwritten

theorem addPromise_unwritten (cfg : Config) (env : DiskEnv) (s : AcceptorState)
    (r : AcceptorRecord) : Unwritten s (addPromiseToSendBuffer cfg env s r) := by
  obtain ⟨hdb, new, htrace, hnew⟩ :=
    makeRoom_unwritten cfg env s (sizeofPromiseMsg + r.valueSize)
  refine ⟨hdb, .log (.promised (promiseOf r)) :: new, congrArg (_ :: ·) htrace, ?_⟩
  exact List.forall_mem_cons.mpr ⟨rfl, hnew⟩

theorem sendLearn_unwritten (s : AcceptorState) (r : AcceptorRecord) :
    Unwritten s (sendLearnMessage s r) :=
  ⟨rfl, [_], rfl, fun _ he => List.mem_singleton.mp he ▸ rfl⟩

/-- Each record on disk is spelled by the data under its number. -/
def DiskSpelled (heap : Nat → Nat → UInt8) (s : AcceptorState) : Prop :=
  ∀ recno, ∃ leftovers, dataAt heap recno s.trace = (s.accDb recno).map (flatRec leftovers)

theorem dataAt_append {new older : List Effect} {recno : Int}
    (quiet : ∀ e ∈ new, diskJournal.wrote e = none) :
    dataAt heap recno (new ++ older) = dataAt heap recno older := by
  induction new with
  | nil => rfl
  | cons e new ih =>
      have hrest := ih fun e' he' => quiet e' (List.mem_cons_of_mem e he')
      cases e with
      | put f ret =>
          have hret : ret ≠ 0 := by
            intro hzero
            have := quiet (.put f ret) List.mem_cons_self
            simp [diskJournal, hzero] at this
          rw [List.cons_append, dataAt, if_neg fun h => hret h.1, hrest]
      | get _ | sync _ | log _ | send _ => exact hrest

theorem DiskSpelled.unwritten (h : DiskSpelled heap s) (step : Unwritten s t) :
    DiskSpelled heap t := by
  obtain ⟨new, htrace, hquiet⟩ := step.trace
  intro recno
  rw [htrace, dataAt_append hquiet, step.db]
  exact h recno

theorem DiskSpelled.diskUpdateRecord (h : DiskSpelled heap s) (cfg : Config) (env : DiskEnv)
    (r : AcceptorRecord) : DiskSpelled heap (diskUpdateRecord cfg env s r) := by
  cases diskUpdateRecord_cases cfg env s r with
  | inl failed =>
      obtain ⟨ret, hret, heq⟩ := failed
      rw [heq]
      exact h.unwritten (.emit s (if_neg hret))
  | inr stored =>
      rw [stored]
      refine DiskSpelled.unwritten ?_ (diskForceSyncrony_quiet cfg env _).unwritten
      intro recno
      have hiid : (flatten r).iid = r.iid := rfl
      change ∃ leftovers, dataAt heap recno (.put (flatten r) 0 :: s.trace) =
        (Function.update s.accDb (r.iid + 1) (some (flatten r)) recno).map (flatRec leftovers)
      rw [dataAt, hiid]
      by_cases hrecno : recno = r.iid + 1
      · subst hrecno
        rw [if_pos ⟨rfl, rfl⟩, Function.update_self]
        exact ⟨_, rfl⟩
      · rw [if_neg fun hput => hrecno hput.2.symm, Function.update_of_ne hrecno]
        exact h recno

theorem DiskSpelled.writeBack (h : DiskSpelled heap s) (cfg : Config) (env : DiskEnv) (iid : Int)
    (r : AcceptorRecord) : DiskSpelled heap (writeBack cfg env s iid r) := by
  have hconsult := h.unwritten (consult_quiet cfg s iid).unwritten
  refine DiskSpelled.diskUpdateRecord ?_ cfg env r
  cases recordPtr cfg s iid <;> exact hconsult

theorem DiskSpelled.op (h : DiskSpelled heap s) {op : AcceptorOp}
    (run : handleOp cfg env s op = some t) : DiskSpelled heap t := by
  cases handleOp_branch run with
  | @granted msg granted =>
      exact (h.writeBack cfg env msg.iid _).unwritten (addPromise_unwritten cfg env _ _)
  | @applied amsg applied =>
      refine (h.writeBack cfg env amsg.iid _).unwritten
        (.trans (diskForceSyncrony_quiet cfg env _).unwritten
          (.trans (.emit _ ?_) (sendLearn_unwritten _ _)))
      rfl
  | @opened iid ballot applied =>
      refine (h.writeBack cfg env iid _).unwritten (.emit _ ?_)
      rfl
  | answered read value =>
      exact h.unwritten ((consult_quiet cfg s _).unwritten.trans (sendLearn_unwritten _ _))
  | refused iid => exact h.unwritten (consult_quiet cfg s iid).unwritten

/-! What is put can be held by the struct. -/

theorem FlatRecord.Storable.copied {f : FlatRecord} (h : f.Storable) : f.copied.Storable := by
  have hcopy : f.copied = f := by
    simp only [FlatRecord.copied, memcpy_of_length h.valueSize_eq]
  rw [hcopy]
  exact h

theorem fits_unset : FitsInt32 (-1) ∧ FitsInt32 0 := by decide

theorem PrepareMsg.image_storable {msg : PrepareMsg} (fits : msg.Fits) {found : Option FlatRecord}
    (h : ∀ f, found = some f → f.Storable) : (msg.image found).Storable := by
  have hiid : FitsInt32 msg.iid := fits _ List.mem_cons_self
  have hballot : FitsInt32 msg.ballot := fits _ (List.mem_cons_of_mem _ List.mem_cons_self)
  cases found with
  | none => exact ⟨hiid, hballot, fits_unset.1, fits_unset.2, rfl⟩
  | some f =>
      have hf := h f rfl
      exact ⟨hf.iid, hballot, hf.valueBallot, hf.valueSize, hf.valueSize_eq⟩

/-- The fields of the operation are 32-bit integers. -/
def AcceptorOp.Storable : AcceptorOp → Prop
  | .prepare msg => msg.Fits
  | .accept amsg => amsg.Fits
  | .lsync _ => True
  | .anyval iid ballot => FitsInt32 iid ∧ FitsInt32 ballot

theorem storable_op (h : s.All FlatRecord.Storable) {op : AcceptorOp} (fits : op.Storable)
    (run : handleOp cfg env s op = some t) : t.All FlatRecord.Storable := by
  cases handleOp_branch run with
  | @granted msg _ =>
      have hfound := h.found cfg env msg.iid fun _ => FlatRecord.Storable.copied
      exact h.prepare (PrepareMsg.image_storable fits hfound) run
  | @applied amsg _ =>
      let r := amsg.record
        (acceptBase (blankRecord cfg s amsg.iid) (readRecord cfg env s amsg.iid))
      have himage : flatten r = amsg.image.copied := by
        simp [r, flatten, AcceptMsg.record, AcceptMsg.image, FlatRecord.copied]
      have hfits : amsg.Fits := fits
      have hstorable : amsg.image.Storable := by
        have hfields := hfits.fields
        simp only [AcceptMsg.fields, List.forall_mem_cons] at hfields
        exact ⟨hfields.1, hfields.2.1, hfields.2.1, hfields.2.2.1, hfits.valueSize_eq⟩
      refine (h.writeBack cfg env amsg.iid (r := r) ?_).congr (by simp [r]) (by simp [r])
      rw [himage]
      exact hstorable.copied
  | @opened iid ballot _ =>
      refine (h.writeBack cfg env iid (r := anyvalRecord _ iid ballot) ?_).congr rfl rfl
      rw [(anyval_record_spec _ iid ballot).1]
      exact ⟨fits.1, fits.2, fits_unset.1, fits_unset.2, rfl⟩
  | answered _ _ => exact h.congr (by simp) (by simp)
  | refused iid => exact h.congr consult_frame.1 consult_frame.2.1

theorem acceptorStart_storable (id : Int) : (acceptorStart id).All FlatRecord.Storable :=
  ⟨fun _ => ⟨fits_unset.1, fits_unset.1, fits_unset.2, fits_unset.2, rfl⟩,
    fun _ _ hf => by cases hf⟩

/-- In every run of 32-bit messages, whatever puts and `malloc` return, a lookup that reads
the bytes of the store finds what the model's lookup does. -/
theorem disk_lookup_reads_bytes (heap : Nat → Nat → UInt8)
    (h : Reachable (acceptorSystem cfg env) (MessageMeets cfg env fun _ op => op.Storable) s)
    (iid : Int) :
    (diskLookupRecord env s iid).2 = (dataAt heap (iid + 1) s.trace).bind
      (readFlatRec (env.uninitProposerId s.trace.length)
        (env.uninitAnyEnabled s.trace.length)) := by
  have inv : s.All FlatRecord.Storable ∧ DiskSpelled heap s := by
    refine acceptor_invariant (fun s => s.All FlatRecord.Storable ∧ DiskSpelled heap s)
      ?_ ?_ ?_ ?_ h
    · exact fun id => ⟨acceptorStart_storable id, fun _ => ⟨fun _ => 0, rfl⟩⟩
    · exact fun s inv => ⟨inv.1.congr rfl rfl, inv.2⟩
    · exact fun s op t _ inv fits run => ⟨storable_op inv.1 fits run, inv.2.op run⟩
    · intro s inv _
      refine ⟨inv.1.congr (by simp) (by simp), inv.2.unwritten ?_⟩
      exact (diskForceSyncrony_quiet cfg env s).unwritten.trans
        ⟨rfl, [_], rfl, fun _ he => List.mem_singleton.mp he ▸ rfl⟩
  obtain ⟨leftovers, hdata⟩ := inv.2 (iid + 1)
  rw [hdata]
  cases hdb : s.accDb (iid + 1) with
  | none => simp [diskLookupRecord, hdb]
  | some f =>
      have hstorable := inv.1.disk (iid + 1) f hdb
      simp [diskLookupRecord, hdb, readFlatRec_flatRec leftovers hstorable]

end Runs

/-- The fields that are not assigned are 255 on disk and 0 in the copy. -/
theorem disk_lookup_reads_bytes_accepted :
    ∃ s, runMessages .shipped quietDisk (acceptorStart 0) [acceptPacket ⟨0, 20, 1, 3, [7]⟩] =
        some s ∧
      (dataAt (fun _ _ => 255) 1 s.trace).bind (readFlatRec 0 false) =
        some ⟨0, 0, 20, 20, 1, false, some [7]⟩ := by
  refine ⟨_, rfl, ?_⟩
  have reached : Reachable (acceptorSystem .shipped quietDisk)
      (MessageMeets .shipped quietDisk fun _ op => op.Storable)
      (handleAccept .shipped quietDisk (acceptorStart 0) ⟨0, 20, 1, 3, [7]⟩) := by
    refine .step (a := acceptPacket ⟨0, 20, 1, 3, [7]⟩) (.init ⟨0, rfl⟩) ⟨?_, fun _ _ => trivial⟩
      ⟨by decide, rfl⟩
    exact ⟨by decide, rfl⟩
  exact (disk_lookup_reads_bytes (fun _ _ => 255) reached 0).symm.trans (by decide)

end LibFastPaxos
