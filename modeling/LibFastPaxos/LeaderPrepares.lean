import LibFastPaxos.LeaderRing
import LibFastPaxos.Lib.Packing

/-!
The prepares of one phase-1 check. The retries and the instances that are opened fill
one packet after the other in the same buffer; `execute_phase1` flushes what is left and
does not empty it, so that the caller flushes it again.
-/

namespace LibFastPaxos

open Transition Packing

/-! ### The packets of one check -/

/-- How many entries a prepare packet holds. -/
def prepareCapacity : Nat := 1123

/-- What `handle_prepare_batch` reads out of a packet. -/
def PaxosMsg.prepared (packet : PaxosMsg) : List PrepareMsg :=
  match packet.data with
  | .prepare batch => batch.data.take batch.count.toNat
  | .accept _ | .lsync _ | .promise _ | .learn _ | .anyval _ => []

namespace LeaderState

variable (cfg : Config) (s : LeaderState)

/-- The entry of an instance that is `p1_pending` when the timer fires. -/
def retryEntry (i : Int) : Option PrepareMsg :=
  if (s.slot cfg i).iid = i ∧ (s.slot cfg i).status = .p1Pending then
    some { iid := i, ballot := cfg.ballotNext (s.slot cfg i).ballot }
  else none

/-- The entry of an instance that `execute_phase1` finds not opened yet. -/
def openEntry (i : Int) : Option PrepareMsg :=
  if (s.slot cfg i).iid < i ∨ (s.slot cfg i).status = .p1New then
    some { iid := i, ballot := cfg.firstBallot s.proposerId }
  else none

def retryEntries : List PrepareMsg :=
  (idsFromTo s.p1info.firstToCheck s.p1info.lastToCheck).filterMap (s.retryEntry cfg)

def openEntries : List PrepareMsg :=
  (idsFromTo (s.p1info.highestReady + 1)
    (s.p1info.highestReady + 1 + cfg.proposerPreexecWinSize)).filterMap (s.openEntry cfg)

/-- The send buffer holds the packet being filled, and the closed ones have been sent. -/
def filled (p : Packer PrepareMsg) : LeaderState :=
  { s with
    msgSize := sizeofPrepareBatchMsg + p.filling.length * sizeofPrepareMsg
    prepares := { count := p.filling.length, data := p.filling }
    sent := (p.closed.map preparePacket).reverse ++ s.sent }

end LeaderState

section Packets

variable {cfg : Config} {s : LeaderState}

theorem addPrepareToBuffer_filled {p : Packer PrepareMsg}
    (room : p.filling.length < prepareCapacity) (iid ballot : Int) :
    addPrepareToBuffer (s.filled p) iid ballot =
      s.filled (p.push prepareCapacity { iid := iid, ballot := ballot }) := by
  have hfull : (s.filled p).msgSize + sizeofPrepareMsg + sizeofPaxosMsg + sizeofPrepareMsg >
      maxUdpMsgSize ↔ p.filling.length + 1 = prepareCapacity := by
    simp only [LeaderState.filled, sizeofPrepareBatchMsg, sizeofPrepareMsg, sizeofPaxosMsg,
      maxUdpMsgSize, prepareCapacity] at room ⊢
    omega
  have hpacket : preparePacket (p.filling ++ [{ iid := iid, ballot := ballot }]) =
      { size := sizeofPrepareBatchMsg + p.filling.length * sizeofPrepareMsg + sizeofPrepareMsg
        data := .prepare
          { count := p.filling.length + 1
            data := p.filling ++ [{ iid := iid, ballot := ballot }] } } := by
    simp only [preparePacket, List.length_append, List.length_singleton, Int.natCast_add,
      Int.add_mul, sizeofPrepareMsg, Int.add_assoc]
    rfl
  simp only [addPrepareToBuffer]
  have hpush := Packer.closed_append prepareCapacity p { iid := iid, ballot := ballot }
  by_cases hlen : p.filling.length + 1 = prepareCapacity
  · rw [if_pos hlen] at hpush
    rw [if_pos (hfull.mpr hlen)]
    simp only [LeaderState.filled, hpush, Packer.filling_eq, if_pos hlen, List.map_append,
      List.map_singleton, hpacket, List.reverse_append]
    rfl
  · rw [if_neg hlen, List.append_nil] at hpush
    rw [if_neg (fun h => hlen (hfull.mp h))]
    simp [LeaderState.filled, hpush, Packer.filling_eq, hlen, sizeofPrepareMsg, Int.add_mul,
      Int.add_assoc]

theorem addPrepareToBuffer_proposerId (iid ballot : Int) :
    (addPrepareToBuffer s iid ballot).proposerId = s.proposerId := by
  simp only [addPrepareToBuffer]
  split <;> rfl

/-- What stays as it was while the loops fill the buffer. -/
structure SameSender (s t : LeaderState) : Prop where
  sent : t.sent = s.sent
  proposerId : t.proposerId = s.proposerId

/-- Another instance of the slot is not the record's own, so a retry changes no other entry. -/
theorem retryEntry_setSlot {i j : Int} (own : (s.slot cfg i).iid = i) (ne : j ≠ i)
    {r : ProposerRecord} (iid : r.iid = i) :
    (s.setSlot cfg i r).retryEntry cfg j = s.retryEntry cfg j := by
  simp only [LeaderState.retryEntry]
  by_cases hindex : cfg.proposerArraySize.index j = cfg.proposerArraySize.index i
  · rw [slot_congr cfg _ i hindex, slot_setSlot, slot_congr cfg s i hindex,
      if_neg (fun h => ne (h.1.symm.trans iid)), if_neg (fun h => ne (h.1.symm.trans own))]
  · rw [slot_setSlot_of_ne cfg s i r hindex]

/-- A retry leaves the entries of other instances as they are. -/
theorem retryInstance_entries (cfg : Config) (s : LeaderState) {i j : Int} (ne : j ≠ i) :
    (retryInstance cfg s i).retryEntry cfg j = s.retryEntry cfg j := by
  simp only [retryInstance]
  split
  · next hpending =>
      let raised := { s.slot cfg i with ballot := cfg.ballotNext (s.slot cfg i).ballot }
      have hset := retryEntry_setSlot hpending.1 ne (r := raised.clearPromises) hpending.1
      refine Eq.trans ?_ hset
      simp only [LeaderState.retryEntry, LeaderState.slot, addPrepareToBuffer_proposerArray]
      rfl
  · rfl

theorem retryInstance_filled (cfg : Config) (s : LeaderState) {p : Packer PrepareMsg}
    (room : p.filling.length < prepareCapacity) (i : Int) :
    ∃ u, retryInstance cfg (s.filled p) i =
        u.filled ((s.retryEntry cfg i).elim p (p.push prepareCapacity)) ∧ SameSender s u := by
  have hslot : (s.filled p).slot cfg i = s.slot cfg i := rfl
  simp only [retryInstance, hslot]
  by_cases hpending : (s.slot cfg i).iid = i ∧ (s.slot cfg i).status = .p1Pending
  · have hentry : s.retryEntry cfg i = some
        { iid := (s.slot cfg i).iid, ballot := cfg.ballotNext (s.slot cfg i).ballot } := by
      simp [LeaderState.retryEntry, hpending]
    rw [if_pos hpending, hentry]
    refine ⟨s.setSlot cfg i { s.slot cfg i with
      ballot := cfg.ballotNext (s.slot cfg i).ballot }.clearPromises, ?_, ⟨rfl, rfl⟩⟩
    exact addPrepareToBuffer_filled (s := s.setSlot cfg i _) room _ _
  · have hentry : s.retryEntry cfg i = none := if_neg hpending
    rw [if_neg hpending, hentry]
    exact ⟨s, rfl, ⟨rfl, rfl⟩⟩

/-- What is opened below an instance of the slot leaves the slot free for it. -/
theorem openEntry_setSlot {i j : Int}
    (free : (s.slot cfg i).iid < i ∨ (s.slot cfg i).status = .p1New)
    (lt : i < j) {r : ProposerRecord} (iid : r.iid = i) :
    (s.setSlot cfg i r).openEntry cfg j = s.openEntry cfg j := by
  simp only [LeaderState.openEntry]
  by_cases hindex : cfg.proposerArraySize.index j = cfg.proposerArraySize.index i
  · have hfree : (s.slot cfg i).iid < j ∨ (s.slot cfg i).status = .p1New :=
      free.imp_left fun hlt => Int.lt_trans hlt lt
    rw [slot_congr cfg _ i hindex, slot_setSlot, slot_congr cfg s i hindex, if_pos hfree,
      if_pos (.inl (iid ▸ lt))]
    rfl
  · rw [slot_setSlot_of_ne cfg s i r hindex]
    rfl

/-- Opening an instance leaves the entries of later instances as they are. -/
theorem openInstance_entries (cfg : Config) (s : LeaderState) {i j : Int} (lt : i < j) :
    (openInstance cfg s i).openEntry cfg j = s.openEntry cfg j := by
  simp only [openInstance]
  split
  · next hfree =>
      let counted := { s with
        p1info := { s.p1info with pendingCount := s.p1info.pendingCount + 1 } }
      have hset := openEntry_setSlot (s := counted) hfree lt
        (r := (s.slot cfg i).opened cfg s.proposerId i) rfl
      refine Eq.trans ?_ hset
      simp only [LeaderState.openEntry, LeaderState.slot, addPrepareToBuffer_proposerArray,
        addPrepareToBuffer_proposerId]
      rfl
  · rfl

theorem openInstance_filled (cfg : Config) (s : LeaderState) {p : Packer PrepareMsg}
    (room : p.filling.length < prepareCapacity) (i : Int) :
    ∃ u, openInstance cfg (s.filled p) i =
        u.filled ((s.openEntry cfg i).elim p (p.push prepareCapacity)) ∧ SameSender s u := by
  have hslot : (s.filled p).slot cfg i = s.slot cfg i := rfl
  simp only [openInstance, hslot]
  by_cases hfree : (s.slot cfg i).iid < i ∨ (s.slot cfg i).status = .p1New
  · have hentry : s.openEntry cfg i =
        some { iid := i, ballot := cfg.firstBallot s.proposerId } := if_pos hfree
    rw [if_pos hfree, hentry]
    let counted := { s with
      p1info := { s.p1info with pendingCount := s.p1info.pendingCount + 1 } }
    let u := counted.setSlot cfg i ((s.slot cfg i).opened cfg s.proposerId i)
    exact ⟨u, addPrepareToBuffer_filled (s := u) room i (cfg.firstBallot s.proposerId),
      ⟨rfl, rfl⟩⟩
  · have hentry : s.openEntry cfg i = none := if_neg hfree
    rw [if_neg hfree, hentry]
    exact ⟨s, rfl, ⟨rfl, rfl⟩⟩

/-- A loop whose steps each put their entry into the buffer packs all of them. -/
theorem foldl_filled {f : LeaderState → Int → LeaderState}
    {entry : LeaderState → Int → Option PrepareMsg} (apart : Int → Int → Prop)
    (entries : ∀ t i j, apart i j → entry (f t i) j = entry t j)
    (fills : ∀ (t : LeaderState) (q : Packer PrepareMsg) (i : Int),
      q.filling.length < prepareCapacity → ∃ u, f (t.filled q) i =
        u.filled ((entry (t.filled q) i).elim q (q.push prepareCapacity)) ∧ SameSender t u)
    {ids : List Int} (pairwise : ids.Pairwise apart) (s : LeaderState) {p : Packer PrepareMsg}
    (room : p.filling.length < prepareCapacity) :
    ∃ u, ids.foldl f (s.filled p) =
        u.filled (p.pushAll prepareCapacity (ids.filterMap (entry (s.filled p)))) ∧
      SameSender s u := by
  have start : ∃ u, s.filled p = u.filled (p.pushAll prepareCapacity []) ∧ SameSender s u :=
    ⟨s, rfl, ⟨rfl, rfl⟩⟩
  refine foldl_entries apart (fun _ _ => True)
    (fun t out => ∃ u, t = u.filled (p.pushAll prepareCapacity out) ∧ SameSender s u)
    entries (fun _ _ _ _ _ => trivial) ?_ pairwise start (fun _ _ => trivial)
  rintro _ out i ⟨t, rfl, same⟩ -
  obtain ⟨u, hu, same'⟩ := fills t _ i (Packer.pushAll_filling_lt room out)
  refine ⟨u, ?_, same'.sent.trans same.sent, same'.proposerId.trans same.proposerId⟩
  rw [hu, Packer.pushAll_append]
  cases entry (t.filled (p.pushAll prepareCapacity out)) i <;> rfl

/-- The loop of `phase1_check_cb` packs the entries of what is pending. -/
theorem retryInstance_foldl (cfg : Config) (s : LeaderState) {ids : List Int}
    (distinct : ids.Nodup) {p : Packer PrepareMsg}
    (room : p.filling.length < prepareCapacity) :
    ∃ u, ids.foldl (retryInstance cfg) (s.filled p) =
        u.filled (p.pushAll prepareCapacity (ids.filterMap (s.retryEntry cfg))) ∧
      SameSender s u :=
  foldl_filled (· ≠ ·)
    (fun t _ _ ne => retryInstance_entries cfg t ne.symm)
    (fun t _ i hroom => retryInstance_filled cfg t hroom i) distinct s room

/-- The loop of `execute_phase1` packs the entries of what it opens. -/
theorem openInstance_foldl (cfg : Config) (s : LeaderState) {ids : List Int}
    (ascending : ids.Pairwise (· < ·)) {p : Packer PrepareMsg}
    (room : p.filling.length < prepareCapacity) :
    ∃ u, ids.foldl (openInstance cfg) (s.filled p) =
        u.filled (p.pushAll prepareCapacity (ids.filterMap (s.openEntry cfg))) ∧
      SameSender s u :=
  foldl_filled (· < ·)
    (fun t _ _ lt => openInstance_entries cfg t lt)
    (fun t _ i hroom => openInstance_filled cfg t hroom i) ascending s room

/-- What is left in the buffer goes out. -/
theorem flushLeft_filled (p : Packer PrepareMsg) :
    (if (s.filled p).prepares.count > 0 then (s.filled p).flushPrepares else s.filled p) =
      { s.filled p with sent := (p.packets.map preparePacket).reverse ++ s.sent } := by
  have hcount : (s.filled p).prepares.count = p.filling.length := rfl
  rw [hcount]
  simp only [Packer.packets]
  by_cases hempty : p.filling = []
  · rw [if_neg (by simp [hempty]), if_pos hempty]
    rfl
  · have hpos := List.length_pos_iff.mpr hempty
    rw [if_pos (by omega), if_neg hempty, List.map_append, List.reverse_append]
    rfl

variable (cfg s) in
theorem executePhase1_filled {p : Packer PrepareMsg}
    (room : p.filling.length < prepareCapacity) :
    let q := p.pushAll prepareCapacity (s.openEntries cfg)
    ∃ v : LeaderState, executePhase1 cfg (s.filled p) =
      { v.filled q with sent := (q.packets.map preparePacket).reverse ++ s.sent } := by
  obtain ⟨u, hu, same⟩ := openInstance_foldl cfg s
    (idsFromTo_ascending (s.p1info.highestReady + 1)
      (s.p1info.highestReady + 1 + cfg.proposerPreexecWinSize)) room
  unfold executePhase1
  extract_lets q start stop s₁ last s₂ first s₃
  have hloop : s₁ = u.filled q := hu
  -- the ends of the window are moved before what is left is flushed
  have hmoved : ∃ info, s₃ = LeaderState.filled { u with p1info := info } q := by
    unfold s₃ s₂
    rw [hloop]
    split <;> split <;> exact ⟨_, rfl⟩
  obtain ⟨info, hmoved⟩ := hmoved
  rw [hmoved, ← same.sent]
  exact ⟨_, flushLeft_filled q⟩

end Packets

/-- A retry moves no instance in or out of the window. -/
theorem windowLow_retryPending (cfg : Config) (s : LeaderState) :
    WindowLow cfg (retryPending cfg s) ↔ WindowLow cfg s := by
  simp only [WindowLow, (retryPending_same cfg s).1.sum]

theorem openEntries_retryPending (cfg : Config) (s : LeaderState) :
    (retryPending cfg s).openEntries cfg = s.openEntries cfg := by
  obtain ⟨window, frame⟩ := retryPending_same cfg s
  have hid : (retryPending cfg s).proposerId = s.proposerId := by
    obtain ⟨u, hu, same⟩ := retryInstance_foldl cfg s
      (nodup_of_ascending (idsFromTo_ascending s.p1info.firstToCheck s.p1info.lastToCheck))
      (p := { closed := [], filling := [] }) (by decide)
    exact (congrArg LeaderState.proposerId hu).trans same.proposerId
  have hiid : ∀ i, ((retryPending cfg s).slot cfg i).iid = (s.slot cfg i).iid :=
    fun i => window.iid _
  have hnew : ∀ i, ((retryPending cfg s).slot cfg i).status = .p1New ↔
      (s.slot cfg i).status = .p1New := fun i => window.new _
  simp only [LeaderState.openEntries, frame.highestReady]
  refine List.filterMap_congr fun i _ => ?_
  simp only [LeaderState.openEntry, hiid, hnew, hid]

instance (cfg : Config) (s : LeaderState) : Decidable (WindowLow cfg s) :=
  inferInstanceAs (Decidable (_ < _))

namespace LeaderState

variable (cfg : Config) (s : LeaderState)

/-- Everything that one check prepares, in order. -/
def checkEntries : List PrepareMsg :=
  s.retryEntries cfg ++ if WindowLow cfg s then s.openEntries cfg else []

def checkPacker : Packer PrepareMsg :=
  Packer.pushAll prepareCapacity { closed := [], filling := [] } (s.checkEntries cfg)

/-- The packet that `execute_phase1` has flushed and `phase1_check_cb` flushes again. -/
def flushedAgain : List (List PrepareMsg) :=
  if WindowLow cfg s ∧ (s.checkPacker cfg).filling ≠ [] then [(s.checkPacker cfg).filling]
  else []

theorem phase1CheckCb_sent :
    (phase1CheckCb cfg s).sent =
      (((s.checkPacker cfg).packets ++ s.flushedAgain cfg).map preparePacket).reverse ++
        s.sent := by
  obtain ⟨u, hu, same⟩ := retryInstance_foldl cfg s
    (nodup_of_ascending (idsFromTo_ascending s.p1info.firstToCheck s.p1info.lastToCheck))
    (p := { closed := [], filling := [] }) (by decide)
  have hretry : retryPending cfg s = u.filled
      (Packer.pushAll prepareCapacity { closed := [], filling := [] } (s.retryEntries cfg)) := hu
  have hlow := windowLow_retryPending cfg s
  have hopen := openEntries_retryPending cfg s
  rw [hretry] at hlow hopen
  have hlow : u.p1info.pendingCount + u.p1info.readyCount < cfg.proposerPreexecWinSize / 2 ↔
      WindowLow cfg s := hlow
  have hopen : u.openEntries cfg = s.openEntries cfg := hopen
  have hfilled := Packer.tidy_start PrepareMsg prepareCapacity (by decide)
  simp only [phase1CheckCb]
  rw [← retryPending, hretry]
  have hinfo : ∀ q, (u.filled q).p1info = u.p1info := fun _ => rfl
  rw [hinfo]
  by_cases low : WindowLow cfg s
  · rw [if_pos (hlow.mpr low)]
    obtain ⟨v, hv⟩ := executePhase1_filled cfg u
      (hfilled.pushAll (s.retryEntries cfg)).room
    have hpacker : s.checkPacker cfg = Packer.pushAll prepareCapacity
        (Packer.pushAll prepareCapacity { closed := [], filling := [] } (s.retryEntries cfg))
        (s.openEntries cfg) := by
      simp only [checkPacker, checkEntries, if_pos low, Packer.pushAll_append]
    rw [hopen, ← hpacker, same.sent] at hv
    -- the buffer still holds what has been sent
    have hcount : (executePhase1 cfg (u.filled (Packer.pushAll prepareCapacity
        { closed := [], filling := [] } (s.retryEntries cfg)))).prepares.count =
          (s.checkPacker cfg).filling.length := by
      rw [hv]
      rfl
    rw [hcount, hv]
    simp only [flushedAgain]
    by_cases hempty : (s.checkPacker cfg).filling = []
    · rw [if_neg (by simp [hempty]), if_neg (fun h => h.2 hempty), List.append_nil]
    · have hpos := List.length_pos_iff.mpr hempty
      rw [if_pos (by omega), if_pos ⟨low, hempty⟩, List.map_append, List.reverse_append]
      rfl
  · rw [if_neg (fun h => low (hlow.mp h)), flushLeft_filled, same.sent]
    simp [checkPacker, checkEntries, flushedAgain, low]

end LeaderState

/-! ### Each instance once -/

namespace LeaderState

variable (cfg : Config) (s : LeaderState)

/-- `execute_phase1` opens the instance in this check. -/
def Opens (i : Int) : Prop :=
  WindowLow cfg s ∧ s.p1info.highestReady < i ∧
    i ≤ s.p1info.highestReady + 1 + cfg.proposerPreexecWinSize ∧
    ((s.slot cfg i).iid < i ∨ (s.slot cfg i).status = .p1New)

/-- The packets of one check, oldest first, prepare every pending record and every instance
that is opened once, and nothing else. -/
structure PreparesWith (packets : List PaxosMsg) : Prop where
  sent : (phase1CheckCb cfg s).sent = packets.reverse ++ s.sent
  prepares : ∀ packet ∈ packets, ∃ batch, packet.data = .prepare batch
  bounded : ∀ packet ∈ packets, sizeofPaxosMsg + packet.size ≤ maxUdpMsgSize
  retried : ∀ k, (s.proposerArray k).status = .p1Pending →
    (packets.flatMap PaxosMsg.prepared).count
      { iid := (s.proposerArray k).iid
        ballot := (s.proposerArray k).ballot + cfg.maxProposers } = 1
  opened : ∀ i, s.Opens cfg i →
    (packets.flatMap PaxosMsg.prepared).count
      { iid := i, ballot := cfg.firstBallot s.proposerId } = 1
  only : ∀ prep ∈ packets.flatMap PaxosMsg.prepared,
    (∃ k, (s.proposerArray k).status = .p1Pending ∧ prep =
      { iid := (s.proposerArray k).iid
        ballot := (s.proposerArray k).ballot + cfg.maxProposers }) ∨
    ∃ i, s.Opens cfg i ∧ prep = { iid := i, ballot := cfg.firstBallot s.proposerId }

def PreparesOnce : Prop := ∃ packets, s.PreparesWith cfg packets

/-- When instances are opened the last packet is full, and no ballot runs over. -/
structure ChecksCleanly : Prop where
  nothingLeft : WindowLow cfg s → (s.checkEntries cfg).length % prepareCapacity = 0
  fits : ∀ k, k < cfg.proposerArraySize.size → (s.proposerArray k).status = .p1Pending →
    (s.proposerArray k).ballot + cfg.maxProposers ≤ 2147483647

instance : Decidable (s.ChecksCleanly cfg) :=
  decidable_of_iff (_ ∧ _) ⟨fun h => ⟨h.1, h.2⟩, fun h => ⟨h.nothingLeft, h.fits⟩⟩

end LeaderState

section Once

variable {cfg : Config} {s : LeaderState}

@[simp] theorem prepared_preparePacket (data : List PrepareMsg) :
    (preparePacket data).prepared = data := by
  simp [PaxosMsg.prepared, preparePacket]

theorem flatMap_prepared (packets : List (List PrepareMsg)) :
    (packets.map preparePacket).flatMap PaxosMsg.prepared = packets.flatten := by
  induction packets with
  | nil => rfl
  | cons data packets ih => simp [ih]

theorem preparePacket_bounded {data : List PrepareMsg} (size : data.length ≤ prepareCapacity) :
    sizeofPaxosMsg + (preparePacket data).size ≤ maxUdpMsgSize := by
  simp only [preparePacket, sizeofPaxosMsg, sizeofPrepareBatchMsg, sizeofPrepareMsg,
    maxUdpMsgSize, prepareCapacity] at size ⊢
  omega

theorem retryEntry_eq_some {i : Int} {prep : PrepareMsg} :
    s.retryEntry cfg i = some prep ↔
      (s.slot cfg i).iid = i ∧ (s.slot cfg i).status = .p1Pending ∧
        prep = { iid := i, ballot := cfg.ballotNext (s.slot cfg i).ballot } := by
  simp only [LeaderState.retryEntry]
  split
  · next hpending =>
      simp only [Option.some.injEq, hpending, true_and]
      exact eq_comm
  · next hother => exact ⟨nofun, fun h => absurd ⟨h.1, h.2.1⟩ hother⟩

theorem openEntry_eq_some {i : Int} {prep : PrepareMsg} :
    s.openEntry cfg i = some prep ↔
      ((s.slot cfg i).iid < i ∨ (s.slot cfg i).status = .p1New) ∧
        prep = { iid := i, ballot := cfg.firstBallot s.proposerId } := by
  simp only [LeaderState.openEntry]
  split
  · next hfree =>
      simp only [Option.some.injEq, hfree, true_and]
      exact eq_comm
  · next hheld => exact ⟨nofun, fun h => absurd h.1 hheld⟩

/-- The retries come by every pending record. -/
theorem mem_retryEntries (h : RecordsChecked cfg s) {prep : PrepareMsg} :
    prep ∈ s.retryEntries cfg ↔
      ∃ k, (s.proposerArray k).status = .p1Pending ∧ prep =
        { iid := (s.proposerArray k).iid
          ballot := cfg.ballotNext (s.proposerArray k).ballot } := by
  simp only [LeaderState.retryEntries, List.mem_filterMap, mem_idsFromTo, retryEntry_eq_some]
  constructor
  · intro ⟨i, _, own, pending, hprep⟩
    refine ⟨cfg.proposerArraySize.index i, pending, ?_⟩
    rw [hprep]
    exact congrArg (PrepareMsg.mk · _) own.symm
  · intro ⟨k, pending, hprep⟩
    obtain ⟨hindex, hnonneg, hle⟩ := h.placed.used k (by rw [pending]; decide)
    have hfirst := h.first
    have hslot : s.slot cfg (s.proposerArray k).iid = s.proposerArray k := by
      rw [LeaderState.slot, hindex]
    refine ⟨(s.proposerArray k).iid, ⟨by omega, hle⟩, ?_⟩
    rw [hslot]
    exact ⟨rfl, pending, hprep⟩

theorem mem_openEntries {prep : PrepareMsg} :
    (WindowLow cfg s ∧ prep ∈ s.openEntries cfg) ↔
      ∃ i, s.Opens cfg i ∧ prep = { iid := i, ballot := cfg.firstBallot s.proposerId } := by
  simp only [LeaderState.openEntries, List.mem_filterMap, mem_idsFromTo, openEntry_eq_some,
    LeaderState.Opens]
  constructor
  · intro ⟨low, i, ⟨hfrom, hto⟩, free, hprep⟩
    exact ⟨i, ⟨low, by omega, hto, free⟩, hprep⟩
  · intro ⟨i, ⟨low, hfrom, hto, free⟩, hprep⟩
    exact ⟨low, i, ⟨by omega, hto⟩, free, hprep⟩

theorem mem_checkEntries {prep : PrepareMsg} :
    prep ∈ s.checkEntries cfg ↔
      prep ∈ s.retryEntries cfg ∨ WindowLow cfg s ∧ prep ∈ s.openEntries cfg := by
  simp only [LeaderState.checkEntries, List.mem_append]
  by_cases low : WindowLow cfg s
  · simp [low]
  · simp [low]

/-- One instance is not both pending and free. -/
theorem checkEntries_nodup : (s.checkEntries cfg).Nodup := by
  have hretry : (s.retryEntries cfg).Nodup := by
    refine (nodup_of_ascending (idsFromTo_ascending _ _)).filterMap ?_
    intro i j prep hi hj
    have hi := (retryEntry_eq_some.mp hi).2.2
    have hj := (retryEntry_eq_some.mp hj).2.2
    exact congrArg PrepareMsg.iid (hi.symm.trans hj)
  have hopen : (s.openEntries cfg).Nodup := by
    refine (nodup_of_ascending (idsFromTo_ascending _ _)).filterMap ?_
    intro i j prep hi hj
    have hi := (openEntry_eq_some.mp hi).2
    have hj := (openEntry_eq_some.mp hj).2
    exact congrArg PrepareMsg.iid (hi.symm.trans hj)
  simp only [LeaderState.checkEntries]
  split
  · refine List.nodup_append.mpr ⟨hretry, hopen, ?_⟩
    intro prep hprep prep' hprep' heq
    obtain ⟨i, -, hi⟩ := List.mem_filterMap.mp hprep
    obtain ⟨j, -, hj⟩ := List.mem_filterMap.mp hprep'
    obtain ⟨own, pending, hi⟩ := retryEntry_eq_some.mp hi
    obtain ⟨free, hj⟩ := openEntry_eq_some.mp hj
    have hij : i = j := congrArg PrepareMsg.iid (hi.symm.trans (heq.trans hj))
    subst hij
    cases free with
    | inl hlt => omega
    | inr hnew =>
        rw [pending] at hnew
        cases hnew
  · rw [List.append_nil]
    exact hretry

variable (cfg s) in
/-- The packets of one check hold its entries and what is flushed again. -/
theorem checkPackets_prepared :
    (((s.checkPacker cfg).packets ++ s.flushedAgain cfg).map preparePacket).flatMap
        PaxosMsg.prepared = s.checkEntries cfg ++ (s.flushedAgain cfg).flatten := by
  have hstart : (Packer.packets (α := PrepareMsg) { closed := [], filling := [] }).flatten = [] :=
    rfl
  rw [flatMap_prepared, List.flatten_append, LeaderState.checkPacker, Packer.flatten_pushAll,
    hstart, List.nil_append]

theorem checkPacker_tidy : (s.checkPacker cfg).Tidy prepareCapacity :=
  (Packer.tidy_start _ _ (by decide)).pushAll _

theorem checkPacker_filling_subset {prep : PrepareMsg}
    (mem : prep ∈ (s.checkPacker cfg).filling) : prep ∈ s.checkEntries cfg := by
  have hall := Packer.flatten_pushAll prepareCapacity { closed := [], filling := [] }
    (s.checkEntries cfg)
  rw [Packer.flatten_packets] at hall
  have hmem : prep ∈ (s.checkPacker cfg).closed.flatten ++ (s.checkPacker cfg).filling :=
    List.mem_append_right _ mem
  rw [LeaderState.checkPacker, hall] at hmem
  exact hmem

/-- Nothing is flushed again exactly when nothing is left in the buffer. -/
theorem flushedAgain_eq_nil :
    s.flushedAgain cfg = [] ↔
      (WindowLow cfg s → (s.checkEntries cfg).length % prepareCapacity = 0) := by
  have hlength : (s.checkPacker cfg).filling.length =
      (s.checkEntries cfg).length % prepareCapacity := by
    rw [checkPacker_tidy.filling_length, LeaderState.checkPacker, Packer.flatten_pushAll]
    rfl
  simp only [LeaderState.flushedAgain, ← hlength, List.length_eq_zero_iff]
  by_cases low : WindowLow cfg s
  · simp [low]
  · simp [low]

/-- A retried ballot is the next one exactly when it does not run over. -/
theorem ballotNext_eq_iff (h : RecordsChecked cfg s) (k : Nat) :
    cfg.ballotNext (s.proposerArray k).ballot = (s.proposerArray k).ballot + cfg.maxProposers ↔
      (s.proposerArray k).ballot + cfg.maxProposers ≤ 2147483647 := by
  have hint := h.placed.ballot_int k
  have hpos := cfg.maxProposers_pos
  constructor
  · intro heq
    have := Int.bmod_lt (x := (s.proposerArray k).ballot + cfg.maxProposers) (m := 2 ^ 32)
      (by decide)
    simp only [Config.ballotNext, wrapInt32] at heq
    omega
  · intro fits
    exact wrapInt32_of_fits (by omega) fits

/-- An instance is prepared by one entry only. -/
theorem PreparesWith.fits (h : RecordsChecked cfg s) {packets : List PaxosMsg}
    (prepares : s.PreparesWith cfg packets)
    (entries : packets.flatMap PaxosMsg.prepared =
      s.checkEntries cfg ++ (s.flushedAgain cfg).flatten) {k : Nat}
    (pending : (s.proposerArray k).status = .p1Pending) :
    (s.proposerArray k).ballot + cfg.maxProposers ≤ 2147483647 := by
  obtain ⟨hindex, -, -⟩ := h.placed.used k (by rw [pending]; decide)
  have hmem : { iid := (s.proposerArray k).iid
                ballot := (s.proposerArray k).ballot + cfg.maxProposers } ∈
      s.checkEntries cfg := by
    have hcount := prepares.retried k pending
    rw [entries] at hcount
    cases List.mem_append.mp (List.count_pos_iff.mp (by rw [hcount]; decide)) with
    | inl hentry => exact hentry
    | inr hagain =>
        simp only [LeaderState.flushedAgain] at hagain
        split at hagain
        · rw [List.flatten_cons, List.flatten_nil, List.append_nil] at hagain
          exact checkPacker_filling_subset hagain
        · cases hagain
  cases mem_checkEntries.mp hmem with
  | inl hretry =>
      obtain ⟨k', pending', heq⟩ := (mem_retryEntries h).mp hretry
      obtain ⟨hindex', -, -⟩ := h.placed.used k' (by rw [pending']; decide)
      obtain ⟨hiid, hballot⟩ := PrepareMsg.mk.inj heq
      have hk : k' = k := by rw [← hindex', ← hiid, hindex]
      subst hk
      exact (ballotNext_eq_iff h k').mp hballot.symm
  | inr hopen =>
      obtain ⟨i, ⟨-, -, -, free⟩, heq⟩ := mem_openEntries.mp hopen
      obtain ⟨hiid, -⟩ := PrepareMsg.mk.inj heq
      have hslot : s.slot cfg i = s.proposerArray k := by
        rw [LeaderState.slot, ← hiid, hindex]
      rw [hslot, hiid, pending] at free
      exact absurd free (by simp)

/-- When no ballot runs over, the entries of a check are those that it has to prepare. -/
theorem mem_checkEntries_of_fits (h : RecordsChecked cfg s)
    (fits : ∀ k, (s.proposerArray k).status = .p1Pending →
      (s.proposerArray k).ballot + cfg.maxProposers ≤ 2147483647) {prep : PrepareMsg} :
    prep ∈ s.checkEntries cfg ↔
      (∃ k, (s.proposerArray k).status = .p1Pending ∧ prep =
        { iid := (s.proposerArray k).iid
          ballot := (s.proposerArray k).ballot + cfg.maxProposers }) ∨
      ∃ i, s.Opens cfg i ∧ prep = { iid := i, ballot := cfg.firstBallot s.proposerId } := by
  rw [mem_checkEntries, mem_retryEntries h, mem_openEntries]
  refine or_congr_left (exists_congr fun k => and_congr_right fun pending => ?_)
  rw [(ballotNext_eq_iff h k).mpr (fits k pending)]

/-- An entry of the packet that is flushed again is prepared twice. -/
theorem exists_prepared_twice (again : s.flushedAgain cfg ≠ []) :
    ∃ prep ∈ s.checkEntries cfg,
      2 ≤ (s.checkEntries cfg ++ (s.flushedAgain cfg).flatten).count prep := by
  simp only [LeaderState.flushedAgain, ne_eq, ite_eq_right_iff, not_forall] at again
  obtain ⟨hleft, -⟩ := again
  obtain ⟨prep, hprep⟩ := List.exists_mem_of_ne_nil _ hleft.2
  have hmem := checkPacker_filling_subset hprep
  refine ⟨prep, hmem, ?_⟩
  have h₁ := List.count_pos_iff.mpr hmem
  have h₂ := List.count_pos_iff.mpr hprep
  rw [LeaderState.flushedAgain, if_pos hleft, List.count_append, List.flatten_cons,
    List.flatten_nil, List.append_nil]
  omega

/-- One phase-1 check prepares every pending record and every instance it opens once,
exactly when `execute_phase1` leaves nothing in the buffer and no ballot runs over. -/
theorem prepares_once_iff {propId : Int} (id : 0 ≤ propId)
    (h : Reachable (leaderSystem cfg propId) anyStep s) :
    s.PreparesOnce cfg ↔ s.ChecksCleanly cfg := by
  have hchecked := leader_recordsChecked id h
  have hsent := s.phase1CheckCb_sent cfg
  have hentries := checkPackets_prepared cfg s
  constructor
  · intro ⟨packets, prepares⟩
    have hpackets : packets =
        ((s.checkPacker cfg).packets ++ s.flushedAgain cfg).map preparePacket := by
      rw [prepares.sent] at hsent
      exact List.reverse_injective (List.append_cancel_right hsent)
    rw [← hpackets] at hentries
    have hfits : ∀ k, (s.proposerArray k).status = .p1Pending →
        (s.proposerArray k).ballot + cfg.maxProposers ≤ 2147483647 :=
      fun k pending => PreparesWith.fits hchecked prepares hentries pending
    refine ⟨flushedAgain_eq_nil.mp ?_, fun k _ pending => hfits k pending⟩
    by_contra again
    obtain ⟨prep, hmem, htwice⟩ := exists_prepared_twice again
    have honce : (packets.flatMap PaxosMsg.prepared).count prep = 1 := by
      cases (mem_checkEntries_of_fits hchecked hfits).mp hmem with
      | inl hretry =>
          obtain ⟨k, pending, rfl⟩ := hretry
          exact prepares.retried k pending
      | inr hopen =>
          obtain ⟨i, opens, rfl⟩ := hopen
          exact prepares.opened i opens
    rw [hentries] at honce
    omega
  · intro clean
    have hfits : ∀ k, (s.proposerArray k).status = .p1Pending →
        (s.proposerArray k).ballot + cfg.maxProposers ≤ 2147483647 := by
      intro k pending
      obtain ⟨hindex, hnonneg, -⟩ := hchecked.placed.used k (by rw [pending]; decide)
      exact clean.fits k (hindex ▸ cfg.proposerArraySize.index_lt hnonneg) pending
    rw [flushedAgain_eq_nil.mpr clean.nothingLeft, List.append_nil] at hentries hsent
    rw [List.flatten_nil, List.append_nil] at hentries
    have honce : ∀ prep ∈ s.checkEntries cfg, (s.checkEntries cfg).count prep = 1 :=
      fun prep hprep => List.count_eq_one_of_mem checkEntries_nodup hprep
    refine ⟨_, hsent, ?_, ?_, ?_, ?_, ?_⟩
    · intro packet hpacket
      obtain ⟨data, -, rfl⟩ := List.mem_map.mp hpacket
      exact ⟨_, rfl⟩
    · intro packet hpacket
      obtain ⟨data, hdata, rfl⟩ := List.mem_map.mp hpacket
      exact preparePacket_bounded (checkPacker_tidy.packets hdata).2
    · intro k pending
      rw [hentries]
      apply honce
      exact (mem_checkEntries_of_fits hchecked hfits).mpr (.inl ⟨k, pending, rfl⟩)
    · intro i opens
      rw [hentries]
      apply honce
      exact (mem_checkEntries_of_fits hchecked hfits).mpr (.inr ⟨i, opens, rfl⟩)
    · intro prep hprep
      rw [hentries] at hprep
      exact (mem_checkEntries_of_fits hchecked hfits).mp hprep

end Once

/-- The window is full, and the first check only retries. -/
theorem prepares_once_firstCheck : (leaderInit .shipped 0).PreparesOnce .shipped :=
  (prepares_once_iff (Int.le_refl 0) (.init rfl)).mpr (by decide +kernel)

/-- A leader that starts late hears of 27 instances that were decided before. -/
def lateLeader : LeaderState :=
  (idsFromTo 0 26).foldl leaderDeliverValue (leaderInit .shipped 0)

theorem lateLeader_reachable : Reachable (leaderSystem .shipped 0) anyStep lateLeader := by
  simp only [lateLeader]
  refine List.foldlRecOn (motive := Reachable (leaderSystem .shipped 0) anyStep) _ _ (.init rfl) ?_
  intro s before i _
  exact .step (a := .deliver i) before trivial rfl

/-- The retries of the instances 0 to 50. -/
def lateRetries : PaxosMsg :=
  preparePacket ((idsFromTo 0 50).map fun i => { iid := i, ballot := 30 })

/-- Every pending instance is prepared twice. -/
theorem lateLeader_prepares_twice :
    Reachable (leaderSystem .shipped 0) anyStep lateLeader ∧
      ¬ lateLeader.PreparesOnce .shipped := by
  refine ⟨lateLeader_reachable, ?_⟩
  intro ⟨packets, prepares⟩
  have hsent : (phase1CheckCb .shipped lateLeader).sent =
      [lateRetries, lateRetries] ++ lateLeader.sent := by decide +kernel
  have hpackets : packets = [lateRetries, lateRetries] := by
    have hrev := List.append_cancel_right (prepares.sent.symm.trans hsent)
    rw [← List.reverse_reverse packets, hrev]
    rfl
  have hcount := prepares.retried 0 (by decide +kernel)
  rw [hpackets] at hcount
  have htwo : ([lateRetries, lateRetries].flatMap PaxosMsg.prepared).count
      { iid := (lateLeader.proposerArray 0).iid
        ballot := (lateLeader.proposerArray 0).ballot + Config.shipped.maxProposers } = 2 := by
    decide +kernel
  omega

end LibFastPaxos
