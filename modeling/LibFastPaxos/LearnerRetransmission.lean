import LibFastPaxos.LearnerRepeats
import LibFastPaxos.Lib.Packing

/-!
The lsync of one round. The loop of `ask_retransmission` packs the ids of the instances
that are open into packets and stops before the highest instance seen, so the round asks
for everything that is missing exactly when that instance is closed.
-/

namespace LibFastPaxos

open Packing

/-- How many ids an lsync packet holds. -/
def lsyncCapacity : Nat := 2247

/-- What `handle_batch_lsync` reads out of a packet. -/
def PaxosMsg.requested (packet : PaxosMsg) : List Int :=
  match packet.data with
  | .lsync lsmsg => lsmsg.ids.take lsmsg.count.toNat
  | .prepare _ | .accept _ | .promise _ | .learn _ | .anyval _ => []

/-- The instance has its record, and the record is closed. -/
def LearnerState.ClosedAt (cfg : Config) (s : LearnerState) (iid : Int) : Prop :=
  (s.slot cfg iid).iid = iid ∧ isClosed (s.slot cfg iid) = true

instance (cfg : Config) (s : LearnerState) (iid : Int) : Decidable (s.ClosedAt cfg iid) :=
  inferInstanceAs (Decidable (_ ∧ _))

/-- The packets of one `lsync_check`, oldest first, ask for what is missing. -/
structure LearnerState.AsksFor (cfg : Config) (s : LearnerState) (packets : List PaxosMsg) :
    Prop where
  sent : (lsyncCheck cfg s).sent = packets.reverse ++ s.sent
  lsyncs : ∀ packet ∈ packets, ∃ lsmsg, packet.data = .lsync lsmsg
  bounded : ∀ packet ∈ packets, sizeofPaxosMsg + packet.size ≤ maxUdpMsgSize
  once : (packets.flatMap PaxosMsg.requested).Nodup
  missing : ∀ i, i ∈ packets.flatMap PaxosMsg.requested ↔
    s.highestDelivered < i ∧ i ≤ s.highestSeen ∧ ¬ s.ClosedAt cfg i

def LearnerState.RequestsMissing (cfg : Config) (s : LearnerState) : Prop :=
  ∃ packets, s.AsksFor cfg packets

/-! ### The loop -/

/-- The test of the loop: not closed or never seen. -/
def LearnerState.asks (cfg : Config) (s : LearnerState) (i : Int) : Bool :=
  decide (((s.slot cfg i).iid = i ∧ isClosed (s.slot cfg i) = false) ∨ (s.slot cfg i).iid < i)

/-- The ids of the loop. -/
def LearnerState.lsyncIds (s : LearnerState) : List Int :=
  (List.range (s.highestSeen - (s.highestDelivered + 1)).toNat).map fun (n : Nat) =>
    s.highestDelivered + 1 + n

/-- The closed packets have been sent. -/
def LearnerState.sendAll (s : LearnerState) (packets : List (List Int)) : LearnerState :=
  { s with sent := (packets.map lsyncPacket).reverse ++ s.sent }

section Loop

variable {cfg : Config} {s : LearnerState}

@[simp] theorem requested_lsyncPacket (ids : List Int) : (lsyncPacket ids).requested = ids := by
  simp [PaxosMsg.requested, lsyncPacket]

theorem askInstance_push {p : Packer Int} (room : p.filling.length < lsyncCapacity) {i : Int}
    (asks : s.asks cfg i = true) :
    askInstance cfg (s.sendAll p.closed, p.filling) i =
      (s.sendAll (p.push lsyncCapacity i).closed, (p.push lsyncCapacity i).filling) := by
  have hfull : maxUdpMsgSize - (sizeofLearnerSyncMsg + sizeofPaxosMsg +
      ((p.filling ++ [i]).length : Int) * sizeofInt) < sizeofInt ↔
        p.filling.length + 1 = lsyncCapacity := by
    simp only [maxUdpMsgSize, sizeofLearnerSyncMsg, sizeofPaxosMsg, sizeofInt, lsyncCapacity,
      List.length_append, List.length_singleton] at room ⊢
    omega
  have hslot : (s.sendAll p.closed).slot cfg i = s.slot cfg i := rfl
  simp only [askInstance, hslot]
  rw [if_pos (by simpa [LearnerState.asks] using asks), Packer.closed_append, Packer.filling_eq]
  by_cases hlen : p.filling.length + 1 = lsyncCapacity
  · rw [if_pos (hfull.mpr hlen), if_pos hlen, if_pos hlen]
    simp [LearnerState.sendAll]
  · rw [if_neg (fun h => hlen (hfull.mp h)), if_neg hlen, if_neg hlen, List.append_nil]

theorem askInstance_skip {acc : LearnerState × List Int} {i : Int}
    (asks : acc.1.asks cfg i = false) : askInstance cfg acc i = acc := by
  simp only [askInstance]
  rw [if_neg (by simpa [LearnerState.asks] using asks)]

variable (cfg s) in
/-- The loop packs the ids that pass the test. -/
theorem askInstance_foldl (is : List Int) {p : Packer Int}
    (room : p.filling.length < lsyncCapacity) :
    is.foldl (askInstance cfg) (s.sendAll p.closed, p.filling) =
      (s.sendAll (p.pushAll lsyncCapacity (is.filter (s.asks cfg))).closed,
        (p.pushAll lsyncCapacity (is.filter (s.asks cfg))).filling) := by
  induction is generalizing p with
  | nil => rfl
  | cons i is ih =>
      rw [List.foldl_cons]
      cases hasks : s.asks cfg i with
      | true =>
          rw [askInstance_push room hasks, ih (Packer.filling_lt room i),
            List.filter_cons_of_pos hasks]
          rfl
      | false =>
          have hskip : (s.sendAll p.closed).asks cfg i = false := hasks
          rw [askInstance_skip hskip, ih room, List.filter_cons_of_neg (by simp [hasks])]

theorem askRetransmission_eq (cfg : Config) (s : LearnerState) :
    askRetransmission cfg s = s.sendAll (pack lsyncCapacity (s.lsyncIds.filter (s.asks cfg))) := by
  have hloop := askInstance_foldl cfg s s.lsyncIds
    (p := { closed := [], filling := [] }) (by decide)
  have hstart : s.sendAll [] = s := rfl
  simp only [askRetransmission]
  rw [hstart] at hloop
  rw [← LearnerState.lsyncIds, hloop]
  simp only [pack, Packer.packets]
  split
  · next hne =>
      rw [if_neg (List.length_pos_iff.mp hne)]
      simp [LearnerState.sendAll]
  · next hempty =>
      rw [if_pos (List.length_eq_zero_iff.mp (by omega))]

theorem mem_lsyncIds {i : Int} :
    i ∈ s.lsyncIds ↔ s.highestDelivered < i ∧ i < s.highestSeen := by
  simp only [LearnerState.lsyncIds, List.mem_map, List.mem_range]
  constructor
  · intro ⟨n, hn, h⟩
    omega
  · intro ⟨hlow, hhigh⟩
    exact ⟨(i - (s.highestDelivered + 1)).toNat, by omega, by omega⟩

theorem lsyncIds_nodup : s.lsyncIds.Nodup := by
  refine List.nodup_range.map ?_
  intro m n h
  have h : s.highestDelivered + 1 + (m : Int) = s.highestDelivered + 1 + n := h
  omega

end Loop

/-! ### The test against what the slots hold -/

/-- A slot holds an instance of its own below the end of the window, or none so far. -/
def LearnerState.Placed (cfg : Config) (s : LearnerState) : Prop :=
  ∀ k, (s.learnerArray k).iid = 0 ∨
    cfg.learnerArraySize.index (s.learnerArray k).iid = k ∧ 0 ≤ (s.learnerArray k).iid ∧
      (s.learnerArray k).iid < s.highestDelivered + cfg.learnerArraySize.size

section Placed

variable {cfg : Config} {s t : LearnerState}

theorem LearnerState.Placed.event (h : s.Placed cfg) (tight : LearnerTight cfg s)
    (e : LearnerEvent) : (learnerEvent cfg s e).Placed cfg := by
  have hlow := tight.sound.low
  obtain ⟨hle, -⟩ := tight.event_kept e
  cases e with
  | lsyncTimer =>
      obtain ⟨packets, hpackets⟩ := lsyncCheck_sends cfg s
      simp only [learnerEvent, hpackets]
      exact h
  | learn lmsg =>
      intro k
      simp only [learnerEvent] at hle ⊢
      rw [handleLearn_iids, takenBy]
      split
      · next htaken =>
          obtain ⟨hk, hfrom, hto⟩ := htaken
          exact .inr ⟨hk.symm, by omega, by omega⟩
      · cases h k with
        | inl hzero => exact .inl hzero
        | inr hplaced =>
            obtain ⟨hk, hnonneg, hlt⟩ := hplaced
            exact .inr ⟨hk, hnonneg, by omega⟩

theorem learnerRun_placed (cfg : Config) (events : List LearnerEvent) :
    (learnerRun cfg events).Placed cfg := by
  induction events using List.reverseRecOn with
  | nil => exact fun _ => .inl rfl
  | append_singleton before e ih =>
      rw [learnerRun_append]
      exact ih.event (learnerRun_tight cfg before) e

/-- Above the last delivered instance no slot holds a later instance. -/
theorem LearnerState.Placed.slot_le (h : s.Placed cfg) (low : -1 ≤ s.highestDelivered) {i : Int}
    (undelivered : s.highestDelivered < i) : (s.slot cfg i).iid ≤ i := by
  cases h (cfg.learnerArraySize.index i) with
  | inl hzero =>
      have hzero : (s.slot cfg i).iid = 0 := hzero
      omega
  | inr hplaced =>
      obtain ⟨hindex, hnonneg, hlt⟩ := hplaced
      change cfg.learnerArraySize.index (s.slot cfg i).iid = _ at hindex
      have hnonneg : 0 ≤ (s.slot cfg i).iid := hnonneg
      have hlt : (s.slot cfg i).iid < s.highestDelivered + cfg.learnerArraySize.size := hlt
      by_cases hle : (s.slot cfg i).iid ≤ i
      · exact hle
      · have := cfg.learnerArraySize.eq_of_index_eq hnonneg (by omega) hindex (by omega) (by omega)
        omega

/-- The loop asks for exactly the instances that are not closed. -/
theorem asks_iff (h : s.Placed cfg) (low : -1 ≤ s.highestDelivered) {i : Int}
    (undelivered : s.highestDelivered < i) : s.asks cfg i = true ↔ ¬ s.ClosedAt cfg i := by
  have hle := h.slot_le low undelivered
  simp only [LearnerState.asks, LearnerState.ClosedAt, decide_eq_true_eq]
  by_cases hiid : (s.slot cfg i).iid = i
  · have hnot : ¬ (s.slot cfg i).iid < i := by omega
    simp [hiid]
  · have hlt : (s.slot cfg i).iid < i := by omega
    simp [hiid, hlt]

end Placed

/-! ### The round -/

section Round

variable {cfg : Config} {s : LearnerState}

/-- The ids that the loop asks for: it stops before the highest instance seen. -/
theorem mem_asked (h : s.Placed cfg) (low : -1 ≤ s.highestDelivered) (i : Int) :
    i ∈ s.lsyncIds.filter (s.asks cfg) ↔
      s.highestDelivered < i ∧ i < s.highestSeen ∧ ¬ s.ClosedAt cfg i := by
  rw [List.mem_filter, mem_lsyncIds]
  constructor
  · intro ⟨⟨hfrom, hto⟩, hasks⟩
    exact ⟨hfrom, hto, (asks_iff h low hfrom).mp hasks⟩
  · intro ⟨hfrom, hto, hopen⟩
    exact ⟨⟨hfrom, hto⟩, (asks_iff h low hfrom).mpr hopen⟩

theorem lsyncPacket_bounded {ids : List Int} (size : ids.length ≤ lsyncCapacity) :
    sizeofPaxosMsg + (lsyncPacket ids).size ≤ maxUdpMsgSize := by
  simp only [lsyncPacket, sizeofPaxosMsg, sizeofLearnerSyncMsg, sizeofInt, maxUdpMsgSize,
    lsyncCapacity] at size ⊢
  omega

theorem flatMap_requested (packets : List (List Int)) :
    (packets.map lsyncPacket).flatMap PaxosMsg.requested = packets.flatten := by
  induction packets with
  | nil => rfl
  | cons ids packets ih => simp [ih]

/-- What the packets of a round ask for. -/
theorem asksFor_iff (seen : s.highestSeen > s.highestDelivered) (packets : List PaxosMsg) :
    (lsyncCheck cfg s).sent = packets.reverse ++ s.sent ↔
      packets = (pack lsyncCapacity (s.lsyncIds.filter (s.asks cfg))).map lsyncPacket := by
  rw [lsyncCheck, if_pos seen, askRetransmission_eq]
  constructor
  · intro hsent
    exact (List.reverse_injective (List.append_cancel_right hsent)).symm
  · intro hpackets
    rw [hpackets]
    rfl

/-- A round asks for everything that is missing exactly when the highest instance seen is
closed: the loop stops before it. -/
theorem retransmission_complete_iff (cfg : Config) (events : List LearnerEvent)
    (seen : (learnerRun cfg events).highestSeen > (learnerRun cfg events).highestDelivered) :
    (learnerRun cfg events).RequestsMissing cfg ↔
      (learnerRun cfg events).ClosedAt cfg (learnerRun cfg events).highestSeen := by
  have hlow := (learnerRun_tight cfg events).sound.low
  have hplaced := learnerRun_placed cfg events
  generalize learnerRun cfg events = s at seen hlow hplaced ⊢
  have hmem : ∀ i, i ∈ s.lsyncIds.filter (s.asks cfg) ↔
      s.highestDelivered < i ∧ i < s.highestSeen ∧ ¬ s.ClosedAt cfg i :=
    mem_asked hplaced hlow
  constructor
  · intro ⟨packets, h⟩
    obtain rfl := (asksFor_iff seen packets).mp h.sent
    by_contra hopen
    -- the highest instance is missing and not in the range of the loop
    have hasked := (h.missing s.highestSeen).mpr ⟨seen, Int.le_refl _, hopen⟩
    rw [flatMap_requested, flatten_pack, hmem] at hasked
    exact Int.lt_irrefl _ hasked.2.1
  · intro hclosed
    refine ⟨_, (asksFor_iff seen _).mpr rfl, ?_, ?_, ?_, ?_⟩
    · intro packet hpacket
      obtain ⟨ids, -, rfl⟩ := List.mem_map.mp hpacket
      exact ⟨_, rfl⟩
    · intro packet hpacket
      obtain ⟨ids, hids, rfl⟩ := List.mem_map.mp hpacket
      exact lsyncPacket_bounded (length_of_mem_pack (by decide) hids).2
    · rw [flatMap_requested, flatten_pack]
      exact lsyncIds_nodup.filter _
    · intro i
      rw [flatMap_requested, flatten_pack, hmem]
      constructor
      · intro ⟨hfrom, hto, hopen⟩
        exact ⟨hfrom, Int.le_of_lt hto, hopen⟩
      · intro ⟨hfrom, hto, hopen⟩
        refine ⟨hfrom, ?_, hopen⟩
        have hne : i ≠ s.highestSeen := by
          intro heq
          subst heq
          exact hopen hclosed
        omega

end Round

/-- Instance 1 is closed and instance 0 was not heard of. -/
def skippedEvents : List LearnerEvent :=
  [0, 1, 2].map fun a =>
    .learn
      { acceptorId := a, iid := 1, ballot := 20, proposerId := 3, valueSize := 1, value := [7] }

theorem retransmission_complete_skipped :
    (learnerRun .shipped skippedEvents).RequestsMissing .shipped :=
  (retransmission_complete_iff .shipped skippedEvents (by decide +kernel)).mpr (by decide +kernel)

/-- One learn of the first instance arrives and the others are lost. -/
theorem lastSeen_not_requested :
    let s := learnerRun .shipped [.learn (firstLearn 0)]
    s.highestSeen > s.highestDelivered ∧ ¬ s.RequestsMissing .shipped := by
  refine ⟨by decide +kernel, ?_⟩
  intro ⟨packets, h⟩
  have hopen : ¬ (learnerRun .shipped [.learn (firstLearn 0)]).ClosedAt .shipped 0 := by
    decide +kernel
  have hsent : (lsyncCheck .shipped (learnerRun .shipped [.learn (firstLearn 0)])).sent = [] := by
    decide +kernel
  have hnone : packets = [] := by
    have := h.sent
    rw [hsent] at this
    exact List.reverse_eq_nil_iff.mp (List.append_eq_nil_iff.mp this.symm).1
  have hasked := (h.missing 0).mpr ⟨by decide +kernel, by decide +kernel, hopen⟩
  rw [hnone] at hasked
  cases hasked

end LibFastPaxos
