import LibFastPaxos.LeaderRuns
import LibFastPaxos.Lib.Packing

/-!
The loop of `execute_phase2`. It visits each ready slot once, at the lowest id of the
window that falls into it, sends the accepts at once and packs the other ids into anyval
messages with one ballot field.
-/


namespace LibFastPaxos

open Transition Packing

inductive Phase2Entry where
  | accept (ballot valueSize : Int) (value : Bytes)
  | any (ballot : Int)
  deriving DecidableEq, Repr

/-- What a datagram tells the acceptors to do for which instance. -/
def PaxosMsg.phase2Entries (packet : PaxosMsg) : List (Int × Phase2Entry) :=
  match packet.data with
  | .accept m => [(m.iid, .accept m.ballot m.valueSize m.value)]
  | .anyval av => av.ids.map fun i => (i, .any av.ballot)
  | _ => []

def phase2Entries (packets : List PaxosMsg) : List (Int × Phase2Entry) :=
  packets.flatMap PaxosMsg.phase2Entries

/-- The phase-2 message that a record justifies. -/
def justifiedEntry (cfg : Config) (r : ProposerRecord) : Phase2Entry :=
  match phase2Value cfg r with
  | some pi => .accept r.ballot pi.valueSize (memcpy (pi.value.getD []) pi.valueSize)
  | none => .any r.ballot

/-- Ids of instances with their ballots, as they are packed into one anyval message. -/
abbrev AnyvalItems := List (Int × Int)

def highestBallot (items : AnyvalItems) : Int :=
  items.foldl (fun b item => if item.2 > b then item.2 else b) (-1)

def anymsgOf (items : AnyvalItems) : AnyvalMsg where
  ballot := highestBallot items
  count := items.length
  ids := items.map Prod.fst

def anymsgPacket (items : AnyvalItems) : PaxosMsg where
  size := sizeofAnyvalMsg + items.length * sizeofInt
  data := .anyval (anymsgOf items)

/-- Ids in one anyval message. -/
def anyvalCapacity : Nat := 2246

section Scan

variable (cfg : Config) (s : LeaderState)

def finish (i : Int) : LeaderState :=
  s.setSlot cfg i { s.slot cfg i with status := .p1Finished }

/-- The ids at which the loop finds a ready slot. -/
def visited : LeaderState → List Int → List Int
  | _, [] => []
  | s, i :: is =>
      if (s.slot cfg i).status = .p1Ready then i :: visited (finish cfg s i) is
      else visited s is

def hasNoValue (i : Int) : Bool := (phase2Value cfg (s.slot cfg i)).isNone

def anyvalItems (is : List Int) : AnyvalItems :=
  (is.filter (hasNoValue cfg s)).map fun i => (i, (s.slot cfg i).ballot)

def acceptEntries (is : List Int) : List (Int × Phase2Entry) :=
  (is.filter fun i => !hasNoValue cfg s i).map fun i =>
    ((s.slot cfg i).iid, justifiedEntry cfg (s.slot cfg i))

def packedEntries (packets : List AnyvalItems) : List (Int × Phase2Entry) :=
  packets.flatMap fun items => (anymsgPacket items).phase2Entries

end Scan

section Visits

variable {cfg : Config} {s t : LeaderState}

theorem phase2Value_congr {r r' : ProposerRecord} (h : r.promises = r'.promises) :
    phase2Value cfg r = phase2Value cfg r' := by
  rw [phase2Value_eq_argmax, phase2Value_eq_argmax, h]

/-- Finishing an instance changes a status only. -/
theorem slot_finish (i j : Int) :
    ((finish cfg s i).slot cfg j).iid = (s.slot cfg j).iid ∧
      ((finish cfg s i).slot cfg j).ballot = (s.slot cfg j).ballot ∧
      ((finish cfg s i).slot cfg j).promises = (s.slot cfg j).promises := by
  simp only [finish]
  by_cases h : cfg.proposerArraySize.index j = cfg.proposerArraySize.index i
  · rw [slot_congr cfg (s.setSlot cfg i _) i h, slot_setSlot, slot_congr cfg s i h]
    exact ⟨rfl, rfl, rfl⟩
  · rw [slot_setSlot_of_ne cfg s i _ h]
    exact ⟨rfl, rfl, rfl⟩

theorem slot_finish_ready (i j : Int) :
    ((finish cfg s i).slot cfg j).status = .p1Ready ↔
      cfg.proposerArraySize.index i ≠ cfg.proposerArraySize.index j ∧
        (s.slot cfg j).status = .p1Ready := by
  simp only [finish]
  by_cases h : cfg.proposerArraySize.index j = cfg.proposerArraySize.index i
  · rw [slot_congr cfg (s.setSlot cfg i _) i h, slot_setSlot]
    simp [h]
  · rw [slot_setSlot_of_ne cfg s i _ h]
    simp [Ne.symm h]

theorem finish_entries (i : Int) (is : List Int) :
    anyvalItems cfg (finish cfg s i) is = anyvalItems cfg s is ∧
      acceptEntries cfg (finish cfg s i) is = acceptEntries cfg s is := by
  have hvalue : ∀ j, phase2Value cfg ((finish cfg s i).slot cfg j) =
      phase2Value cfg (s.slot cfg j) := fun j => phase2Value_congr (slot_finish i j).2.2
  have hnone : hasNoValue cfg (finish cfg s i) = hasNoValue cfg s := by
    funext j
    simp only [hasNoValue, hvalue]
  constructor
  · simp only [anyvalItems, hnone, (slot_finish i _).2.1]
  · simp only [acceptEntries, hnone, justifiedEntry, hvalue, (slot_finish i _).1,
      (slot_finish i _).2.1]

theorem visited_sublist (is : List Int) : (visited cfg s is).Sublist is := by
  induction is generalizing s with
  | nil => exact List.Sublist.refl []
  | cons i is ih =>
      rw [visited]
      split
      · exact ih.cons_cons i
      · exact ih.cons i

/-- Every ready slot that the ids fall into is visited. -/
theorem exists_visited {is : List Int} {k : Int} (hk : k ∈ is)
    (ready : (s.slot cfg k).status = .p1Ready) :
    ∃ i ∈ visited cfg s is, cfg.proposerArraySize.index i = cfg.proposerArraySize.index k := by
  induction is generalizing s with
  | nil => cases hk
  | cons j is ih =>
      rw [visited]
      by_cases hready : (s.slot cfg j).status = .p1Ready
      · rw [if_pos hready]
        by_cases hidx : cfg.proposerArraySize.index j = cfg.proposerArraySize.index k
        · exact ⟨j, List.mem_cons_self, hidx⟩
        · have hmem : k ∈ is := by
            cases List.mem_cons.mp hk with
            | inl heq => exact absurd (by rw [heq]) hidx
            | inr hmem => exact hmem
          obtain ⟨i, hi, heq⟩ := ih hmem ((slot_finish_ready j k).mpr ⟨hidx, ready⟩)
          exact ⟨i, List.mem_cons_of_mem j hi, heq⟩
      · rw [if_neg hready]
        cases List.mem_cons.mp hk with
        | inl heq =>
            subst heq
            exact absurd ready hready
        | inr hmem => exact ih hmem ready

/-- In ascending order, a ready slot is visited at its lowest id. -/
theorem mem_visited {is : List Int} (ascending : is.Pairwise (· < ·)) {i : Int} :
    i ∈ visited cfg s is ↔ i ∈ is ∧ (s.slot cfg i).status = .p1Ready ∧
      ∀ j ∈ is, j < i → cfg.proposerArraySize.index j ≠ cfg.proposerArraySize.index i := by
  induction is generalizing s with
  | nil => simp [visited]
  | cons k is ih =>
      obtain ⟨hk, hrest⟩ := List.pairwise_cons.mp ascending
      rw [visited]
      by_cases hready : (s.slot cfg k).status = .p1Ready
      · rw [if_pos hready, List.mem_cons, ih hrest]
        constructor
        · intro h
          cases h with
          | inl heq =>
              subst heq
              refine ⟨List.mem_cons_self, hready, ?_⟩
              intro j hj hlt
              cases List.mem_cons.mp hj with
              | inl heq => omega
              | inr hmem =>
                  have := hk j hmem
                  omega
          | inr h =>
              obtain ⟨hmem, hir, hfirst⟩ := h
              obtain ⟨hne, hir⟩ := (slot_finish_ready k i).mp hir
              refine ⟨List.mem_cons_of_mem k hmem, hir, ?_⟩
              intro j hj hlt
              cases List.mem_cons.mp hj with
              | inl heq =>
                  subst heq
                  exact hne
              | inr hjmem => exact hfirst j hjmem hlt
        · intro ⟨hmem, hir, hfirst⟩
          cases List.mem_cons.mp hmem with
          | inl heq => exact .inl heq
          | inr himem =>
              right
              refine ⟨himem, (slot_finish_ready k i).mpr ⟨?_, hir⟩, ?_⟩
              · exact hfirst k List.mem_cons_self (hk i himem)
              · intro j hj
                exact hfirst j (List.mem_cons_of_mem k hj)
      · rw [if_neg hready, ih hrest]
        constructor
        · intro ⟨hmem, hir, hfirst⟩
          refine ⟨List.mem_cons_of_mem k hmem, hir, ?_⟩
          intro j hj hlt
          cases List.mem_cons.mp hj with
          | inl heq =>
              subst heq
              intro hidx
              rw [slot_congr cfg s i hidx] at hready
              exact hready hir
          | inr hjmem => exact hfirst j hjmem hlt
        · intro ⟨hmem, hir, hfirst⟩
          cases List.mem_cons.mp hmem with
          | inl heq =>
              subst heq
              exact absurd hir hready
          | inr himem =>
              exact ⟨himem, hir, fun j hj => hfirst j (List.mem_cons_of_mem k hj)⟩

end Visits

/-! ### The loop -/

/-- The send buffer holds an anyval message with these items. -/
structure Buffered (s : LeaderState) (items : AnyvalItems) : Prop where
  anymsg_eq : s.anymsg = anymsgOf items
  msgSize_eq : s.msgSize = sizeofAnyvalMsg + items.length * sizeofInt

section Loop

variable {cfg : Config} {s : LeaderState}

/-- `execute_phase2` raises the ballot of the message and appends an id to it. -/
def bufferItem (s : LeaderState) (i ballot : Int) : LeaderState :=
  appendAnymsgToBuffer
    (if ballot > s.anymsg.ballot then { s with anymsg := { s.anymsg with ballot := ballot } }
      else s) i

theorem anymsgOf_append (items : AnyvalItems) (i ballot : Int) :
    anymsgOf (items ++ [(i, ballot)]) =
      { ballot := if ballot > highestBallot items then ballot else highestBallot items
        count := items.length + 1
        ids := items.map Prod.fst ++ [i] } := by
  simp [anymsgOf, highestBallot, List.foldl_append]

theorem bufferItem_spec {items : AnyvalItems} (h : Buffered s items)
    (room : items.length < anyvalCapacity) (i ballot : Int) :
    let full := decide (items.length + 1 = anyvalCapacity)
    Buffered (bufferItem s i ballot) (if full then [] else items ++ [(i, ballot)]) ∧
      (bufferItem s i ballot).sent =
        (if full then [anymsgPacket (items ++ [(i, ballot)])] else []) ++ s.sent := by
  have hmsg : (if ballot > s.anymsg.ballot then
        { s with anymsg := { s.anymsg with ballot := ballot } } else s) =
      { s with anymsg := { s.anymsg with
        ballot := if ballot > s.anymsg.ballot then ballot else s.anymsg.ballot } } := by
    split <;> rfl
  have hballot : s.anymsg.ballot = highestBallot items := by rw [h.anymsg_eq]; rfl
  have hcount : s.anymsg.count = items.length := by rw [h.anymsg_eq]; rfl
  have hids : s.anymsg.ids = items.map Prod.fst := by rw [h.anymsg_eq]; rfl
  have hfull : (s.msgSize + sizeofInt + sizeofPaxosMsg + sizeofInt > maxUdpMsgSize) ↔
      items.length + 1 = anyvalCapacity := by
    rw [h.msgSize_eq]
    simp only [sizeofAnyvalMsg, sizeofInt, sizeofPaxosMsg, maxUdpMsgSize, anyvalCapacity] at room ⊢
    omega
  have hitems := anymsgOf_append items i ballot
  have hsize : s.msgSize + sizeofInt =
      sizeofAnyvalMsg + ((items ++ [(i, ballot)]).length : Int) * sizeofInt := by
    rw [h.msgSize_eq]
    simp only [List.length_append, List.length_singleton, sizeofAnyvalMsg, sizeofInt]
    omega
  simp only [bufferItem, appendAnymsgToBuffer]
  rw [hmsg]
  dsimp only
  by_cases hf : items.length + 1 = anyvalCapacity
  · rw [if_pos (hfull.mpr hf)]
    simp only [hf, decide_true, if_true]
    refine ⟨⟨rfl, rfl⟩, ?_⟩
    simp [LeaderState.flushAnymsg, LeaderState.initAnymsg, LeaderState.send, anymsgPacket, hitems,
      hballot, hcount, hids, hsize]
  · rw [if_neg (fun hgt => hf (hfull.mp hgt))]
    simp only [hf, decide_false, Bool.false_eq_true, if_false, List.nil_append, and_true]
    constructor
    · simp [hitems, hballot, hcount, hids]
    · exact hsize

theorem phase2Instance_of_not_ready {i : Int} (h : (s.slot cfg i).status ≠ .p1Ready) :
    phase2Instance cfg s i = s := by
  simp [phase2Instance, h]

theorem phase2Instance_of_value {i : Int} (h : (s.slot cfg i).status = .p1Ready)
    {pi : PromiseInfo} (value : phase2Value cfg (s.slot cfg i) = some pi) :
    phase2Instance cfg s i =
      { finish cfg s i with
        sent := acceptPacket (acceptOf cfg (s.slot cfg i) pi) :: s.sent } := by
  simp [phase2Instance, h, value, sendAccept, LeaderState.send, finish, LeaderState.setSlot,
    acceptPacket, acceptOf]

theorem phase2Instance_of_no_value {i : Int} (h : (s.slot cfg i).status = .p1Ready)
    (value : phase2Value cfg (s.slot cfg i) = none) :
    phase2Instance cfg s i =
      (bufferItem s i (s.slot cfg i).ballot).setSlot cfg i
        { s.slot cfg i with status := .p1Finished } := by
  simp [phase2Instance, h, value, bufferItem]

variable (cfg) in
/-- What the visited ids and their entries depend on. -/
theorem visits_congr {t : LeaderState} (arr : t.proposerArray = s.proposerArray)
    (is : List Int) :
    visited cfg t is = visited cfg s is ∧ anyvalItems cfg t is = anyvalItems cfg s is ∧
      acceptEntries cfg t is = acceptEntries cfg s is := by
  have hslot : ∀ i, t.slot cfg i = s.slot cfg i := by
    intro i
    simp [LeaderState.slot, arr]
  have hnone : hasNoValue cfg t = hasNoValue cfg s := by
    funext i
    simp only [hasNoValue, hslot]
  refine ⟨?_, ?_, ?_⟩
  · induction is generalizing s t with
    | nil => rfl
    | cons i is ih =>
        have hfinish : (finish cfg t i).proposerArray = (finish cfg s i).proposerArray := by
          simp [finish, LeaderState.setSlot, hslot, arr]
        have hfslot : ∀ j, (finish cfg t i).slot cfg j = (finish cfg s i).slot cfg j := by
          intro j
          simp [LeaderState.slot, hfinish]
        rw [visited, visited, hslot, ih arr hslot hnone]
        rw [ih hfinish hfslot (by funext j; simp only [hasNoValue, hfslot])]
  · simp only [anyvalItems, hnone, hslot]
  · simp only [acceptEntries, hnone, hslot]

theorem bufferItem_array (i ballot : Int) :
    (bufferItem s i ballot).proposerArray = s.proposerArray := by
  simp only [bufferItem, appendAnymsgToBuffer]
  split <;> split <;> rfl

theorem phase2Instance_array {i : Int} (h : (s.slot cfg i).status = .p1Ready) :
    (phase2Instance cfg s i).proposerArray = (finish cfg s i).proposerArray := by
  cases hv : phase2Value cfg (s.slot cfg i) with
  | some pi => rw [phase2Instance_of_value h hv]
  | none =>
      rw [phase2Instance_of_no_value h hv]
      simp [finish, LeaderState.setSlot, bufferItem_array]

theorem phase2Entries_append (new old : List PaxosMsg) :
    phase2Entries (new ++ old) = phase2Entries new ++ phase2Entries old := by
  simp [phase2Entries]

theorem packedEntries_append (ps qs : List AnyvalItems) :
    packedEntries (ps ++ qs) = packedEntries ps ++ packedEntries qs := by
  simp [packedEntries]

theorem anyvalItems_cons_of_value {i : Int} {pi : PromiseInfo}
    (value : phase2Value cfg (s.slot cfg i) = some pi) (is : List Int) :
    anyvalItems cfg s (i :: is) = anyvalItems cfg s is := by
  simp [anyvalItems, hasNoValue, value]

theorem anyvalItems_cons_of_no_value {i : Int}
    (value : phase2Value cfg (s.slot cfg i) = none) (is : List Int) :
    anyvalItems cfg s (i :: is) = (i, (s.slot cfg i).ballot) :: anyvalItems cfg s is := by
  simp [anyvalItems, hasNoValue, value]

theorem acceptEntries_cons_of_value {i : Int} {pi : PromiseInfo}
    (value : phase2Value cfg (s.slot cfg i) = some pi) (is : List Int) :
    acceptEntries cfg s (i :: is) =
      ((s.slot cfg i).iid, .accept (s.slot cfg i).ballot pi.valueSize
        (memcpy (pi.value.getD []) pi.valueSize)) :: acceptEntries cfg s is := by
  simp [acceptEntries, hasNoValue, justifiedEntry, value]

theorem acceptEntries_cons_of_no_value {i : Int}
    (value : phase2Value cfg (s.slot cfg i) = none) (is : List Int) :
    acceptEntries cfg s (i :: is) = acceptEntries cfg s is := by
  simp [acceptEntries, hasNoValue, value]

/-- The packets closed so far and the accepts sent are the entries of the visited ids. -/
theorem phase2_loop (is : List Int) {p : Packer (Int × Int)} (buffered : Buffered s p.filling)
    (room : p.filling.length < anyvalCapacity) :
    let t := is.foldl (phase2Instance cfg) s
    let q := p.pushAll anyvalCapacity (anyvalItems cfg s (visited cfg s is))
    Buffered t q.filling ∧ q.filling.length < anyvalCapacity ∧
      ∃ new, t.sent = new ++ s.sent ∧
        (phase2Entries new ++ packedEntries p.closed).Perm
          (acceptEntries cfg s (visited cfg s is) ++ packedEntries q.closed) := by
  induction is generalizing s p with
  | nil =>
      refine ⟨buffered, room, [], rfl, ?_⟩
      exact List.Perm.refl _
  | cons i is ih =>
      dsimp only
      rw [List.foldl_cons, visited]
      by_cases hready : (s.slot cfg i).status = .p1Ready
      · have harr := phase2Instance_array hready
        have hvisits := (visits_congr cfg harr is).1
        have hentries : ∀ vs, anyvalItems cfg (phase2Instance cfg s i) vs = anyvalItems cfg s vs ∧
            acceptEntries cfg (phase2Instance cfg s i) vs = acceptEntries cfg s vs := by
          intro vs
          rw [(visits_congr cfg harr vs).2.1, (visits_congr cfg harr vs).2.2]
          exact finish_entries i vs
        rw [if_pos hready]
        cases hv : phase2Value cfg (s.slot cfg i) with
        | some pi =>
            have hstep := phase2Instance_of_value hready hv
            have hbuf : Buffered (phase2Instance cfg s i) p.filling := by
              rw [hstep]
              exact ⟨buffered.anymsg_eq, buffered.msgSize_eq⟩
            obtain ⟨hb, hr, new, hsent, hperm⟩ := ih hbuf room
            rw [hvisits, (hentries _).1] at hb hr hperm
            rw [(hentries _).2] at hperm
            rw [anyvalItems_cons_of_value hv, acceptEntries_cons_of_value hv]
            refine ⟨hb, hr, new ++ [acceptPacket (acceptOf cfg (s.slot cfg i) pi)], ?_, ?_⟩
            · rw [hsent, hstep, List.append_assoc]
              rfl
            · rw [phase2Entries_append, List.append_assoc]
              refine List.Perm.trans ?_ (List.Perm.cons _ hperm)
              exact List.perm_middle
        | none =>
            have hstep := phase2Instance_of_no_value hready hv
            obtain ⟨hbuf, hsent₁⟩ := bufferItem_spec buffered room i (s.slot cfg i).ballot
            have hbuf₁ : Buffered (phase2Instance cfg s i)
                (p.push anyvalCapacity (i, (s.slot cfg i).ballot)).filling := by
              rw [hstep, Packer.filling_eq]
              simp only [decide_eq_true_eq] at hbuf
              exact ⟨hbuf.anymsg_eq, hbuf.msgSize_eq⟩
            obtain ⟨hb, hr, new, hsent, hperm⟩ := ih hbuf₁ (Packer.filling_lt room _)
            rw [hvisits, (hentries _).1] at hb hr hperm
            rw [(hentries _).2, Packer.closed_append] at hperm
            rw [anyvalItems_cons_of_no_value hv, acceptEntries_cons_of_no_value hv]
            refine ⟨hb, hr, new ++ (if p.filling.length + 1 = anyvalCapacity then
              [anymsgPacket (p.filling ++ [(i, (s.slot cfg i).ballot)])] else []), ?_, ?_⟩
            · rw [hsent, hstep, List.append_assoc]
              congr 1
              simp only [decide_eq_true_eq] at hsent₁
              exact hsent₁
            · refine List.Perm.trans ?_ hperm
              rw [phase2Entries_append, List.append_assoc, packedEntries_append]
              apply List.Perm.append_left
              refine List.perm_append_comm.trans ?_
              apply List.Perm.append_left
              split <;> exact List.Perm.refl _
      · rw [if_neg hready, phase2Instance_of_not_ready hready]
        exact ih buffered room

theorem executePhase2_sent (cfg : Config) (s : LeaderState) (first last : Int) :
    let vs := visited cfg s (idsFromTo first last)
    ∃ new, (executePhase2 cfg s first last).sent = new ++ s.sent ∧
      (phase2Entries new).Perm
        (acceptEntries cfg s vs ++ packedEntries (pack anyvalCapacity (anyvalItems cfg s vs))) := by
  dsimp only
  let p : Packer (Int × Int) := { closed := [], filling := [] }
  have hinit : Buffered s.initAnymsg p.filling := ⟨rfl, rfl⟩
  obtain ⟨hb, -, new, hsent, hperm⟩ :=
    phase2_loop (idsFromTo first last) hinit (by decide : p.filling.length < anyvalCapacity)
  have hclosed : packedEntries p.closed = [] := rfl
  rw [hclosed, List.append_nil] at hperm
  rw [(visits_congr cfg (s := s) (t := s.initAnymsg) rfl _).1,
    (visits_congr cfg (s := s) (t := s.initAnymsg) rfl _).2.1,
    (visits_congr cfg (s := s) (t := s.initAnymsg) rfl _).2.2] at hperm
  rw [(visits_congr cfg (s := s) (t := s.initAnymsg) rfl _).1,
    (visits_congr cfg (s := s) (t := s.initAnymsg) rfl _).2.1] at hb
  unfold pack Packer.packets executePhase2
  dsimp only
  generalize (idsFromTo first last).foldl (phase2Instance cfg) s.initAnymsg = t at hb hsent ⊢
  generalize Packer.pushAll anyvalCapacity p _ = q at hb hperm ⊢
  have hcount : t.anymsg.count = q.filling.length := by
    rw [hb.anymsg_eq]
    rfl
  by_cases hempty : q.filling = []
  · rw [if_neg (by simp [hcount, hempty]), if_pos hempty]
    exact ⟨new, hsent, hperm⟩
  · have hpos : 0 < q.filling.length := List.length_pos_iff.mpr hempty
    rw [if_pos (by omega), if_neg hempty]
    refine ⟨anymsgPacket q.filling :: new, ?_, ?_⟩
    · simp [LeaderState.flushAnymsg, LeaderState.send, hsent, hb.anymsg_eq, hb.msgSize_eq,
        anymsgPacket, LeaderState.initAnymsg]
    · rw [packedEntries_append, ← List.append_assoc]
      have hpacket : packedEntries [q.filling] = (anymsgPacket q.filling).phase2Entries := by
        simp [packedEntries]
      rw [hpacket]
      exact (List.Perm.append_left _ hperm).trans List.perm_append_comm

/-- The loop finishes the ready slots that it reaches and touches no other status. -/
theorem phase2Instance_slot (cfg : Config) (s : LeaderState) (i : Int) (k : Nat) :
    ((phase2Instance cfg s i).proposerArray k).iid = (s.proposerArray k).iid ∧
      ((phase2Instance cfg s i).proposerArray k).status =
        if (s.proposerArray k).status = .p1Ready ∧ cfg.proposerArraySize.index i = k then
          .p1Finished
        else (s.proposerArray k).status := by
  by_cases hready : (s.slot cfg i).status = .p1Ready
  · rw [phase2Instance_array hready, finish, proposerArray_setSlot]
    by_cases hk : cfg.proposerArraySize.index i = k
    · subst hk
      rw [if_pos rfl]
      have hready : (s.proposerArray (cfg.proposerArraySize.index i)).status = .p1Ready := hready
      simp [LeaderState.slot, hready]
    · rw [if_neg (Ne.symm hk)]
      simp [hk]
  · rw [phase2Instance_of_not_ready hready]
    refine ⟨rfl, ?_⟩
    rw [if_neg]
    rintro ⟨hk, hidx⟩
    subst hidx
    exact hready hk

theorem phase2_loop_slot (cfg : Config) (s : LeaderState) (is : List Int) (k : Nat) :
    ((is.foldl (phase2Instance cfg) s).proposerArray k).iid = (s.proposerArray k).iid ∧
      ((is.foldl (phase2Instance cfg) s).proposerArray k).status =
        if (s.proposerArray k).status = .p1Ready ∧
            ∃ i ∈ is, cfg.proposerArraySize.index i = k then
          .p1Finished
        else (s.proposerArray k).status := by
  induction is generalizing s with
  | nil => simp
  | cons i is ih =>
      obtain ⟨hiid, hstatus⟩ := phase2Instance_slot cfg s i k
      rw [List.foldl_cons, (ih _).1, (ih _).2, hiid, hstatus]
      refine ⟨rfl, ?_⟩
      by_cases hready : (s.proposerArray k).status = .p1Ready
      · by_cases hk : cfg.proposerArraySize.index i = k
        · simp [hready, hk]
        · simp [hready, hk]
      · simp [hready]

theorem executePhase2_slot (cfg : Config) (s : LeaderState) (first last : Int) (k : Nat) :
    ((executePhase2 cfg s first last).proposerArray k).iid = (s.proposerArray k).iid ∧
      ((executePhase2 cfg s first last).proposerArray k).status =
        if (s.proposerArray k).status = .p1Ready ∧
            ∃ i ∈ idsFromTo first last, cfg.proposerArraySize.index i = k then
          .p1Finished
        else (s.proposerArray k).status := by
  have hloop := phase2_loop_slot cfg s.initAnymsg (idsFromTo first last) k
  have harr : (executePhase2 cfg s first last).proposerArray =
      ((idsFromTo first last).foldl (phase2Instance cfg) s.initAnymsg).proposerArray := by
    unfold executePhase2
    dsimp only
    split <;> rfl
  rw [harr]
  exact hloop

end Loop

end LibFastPaxos
