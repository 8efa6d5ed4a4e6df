import LibFastPaxos.LeaderVisits
import Mathlib.Data.List.Nodup

/-!
What phase 2 sends. Both the id of an anyval entry and its ballot can be those of another
instance, as a slot is visited at the lowest id that falls into it and the ids of a message
share one ballot. The main lemma says exactly when they are not.
-/

namespace LibFastPaxos

open Transition Packing

/-- The instances that reach a quorum while the batch is handled. -/
def reached (cfg : Config) (s : LeaderState) (batch : PromiseBatchMsg) : List Int :=
  reachedQuorum cfg batch.acceptorId s (batch.data.take batch.count.toNat)

theorem highestBallot_append (items : AnyvalItems) (item : Int × Int) :
    highestBallot (items ++ [item]) =
      if item.2 > highestBallot items then item.2 else highestBallot items := by
  simp [highestBallot, List.foldl_append]

theorem le_highestBallot (items : AnyvalItems) :
    -1 ≤ highestBallot items ∧ ∀ item ∈ items, item.2 ≤ highestBallot items := by
  induction items using List.reverseRecOn with
  | nil => exact ⟨Int.le_refl _, fun item h => by cases h⟩
  | append_singleton items item ih =>
      rw [highestBallot_append]
      obtain ⟨hlow, hall⟩ := ih
      constructor
      · split <;> omega
      · intro x hx
        cases List.mem_append.mp hx with
        | inl hold =>
            have := hall x hold
            split <;> omega
        | inr hnew =>
            obtain rfl := List.mem_singleton.mp hnew
            split <;> omega

theorem highestBallot_le {items : AnyvalItems} {b : Int} (low : -1 ≤ b)
    (all : ∀ item ∈ items, item.2 ≤ b) : highestBallot items ≤ b := by
  induction items using List.reverseRecOn with
  | nil => exact low
  | append_singleton items item ih =>
      rw [highestBallot_append]
      have hold := ih fun x hx => all x (List.mem_append_left _ hx)
      have hnew := all item (by simp)
      split <;> omega

/-- The ballot of a message is that of each of its instances when they share one. -/
theorem highestBallot_eq_iff (ballot : Int → Int) (ids : List Int) :
    (∀ i ∈ ids, highestBallot (ids.map fun i => (i, ballot i)) = ballot i) ↔
      ∀ i ∈ ids, -1 ≤ ballot i ∧ ∀ j ∈ ids, ballot i = ballot j := by
  obtain ⟨hlow, hall⟩ := le_highestBallot (ids.map fun i => (i, ballot i))
  constructor
  · intro h i hi
    have hi' := h i hi
    refine ⟨by omega, fun j hj => ?_⟩
    exact hi'.symm.trans (h j hj)
  · intro h i hi
    have hge : ballot i ≤ highestBallot (ids.map fun i => (i, ballot i)) :=
      hall (i, ballot i) (List.mem_map.mpr ⟨i, hi, rfl⟩)
    have hle : highestBallot (ids.map fun i => (i, ballot i)) ≤ ballot i := by
      apply highestBallot_le (h i hi).1
      intro item hitem
      obtain ⟨j, hj, rfl⟩ := List.mem_map.mp hitem
      exact Int.le_of_eq ((h i hi).2 j hj).symm
    omega

/-- The entries of packed ids, each under the ballot of its packet. -/
theorem packedEntries_pack (ballot : Int → Int) (ids : List Int) :
    packedEntries (pack anyvalCapacity (ids.map fun i => (i, ballot i))) =
      (pack anyvalCapacity ids).flatMap fun packet =>
        packet.map fun i => (i, .any (highestBallot (packet.map fun i => (i, ballot i)))) := by
  rw [pack_map, packedEntries, List.flatMap_map]
  simp only [PaxosMsg.phase2Entries, anymsgPacket, anymsgOf, List.map_map, Function.comp_def]


/-- The ready slots belong to `ids`, all of them inside the window of the loop. -/
structure Window (cfg : Config) (s : LeaderState) (ids : List Int) (first last : Int) : Prop where
  ready : ReadyExactly cfg s ids
  ascending : ids.Pairwise (· < ·)
  nonneg : ∀ r ∈ ids, 0 ≤ first
  inside : ∀ r ∈ ids, first ≤ r ∧ r ≤ last

theorem idsFromTo_ascending (first last : Int) : (idsFromTo first last).Pairwise (· < ·) := by
  rw [idsFromTo, List.pairwise_map]
  apply List.pairwise_lt_range.imp
  intro a b h
  omega

theorem nodup_of_ascending {ids : List Int} (h : ids.Pairwise (· < ·)) : ids.Nodup := by
  apply h.imp
  intro a b hlt heq
  omega

section Windows

variable {cfg : Config} {s : LeaderState} {ids : List Int} {first last : Int}

theorem visited_inj {i j : Int} (hi : i ∈ visited cfg s (idsFromTo first last))
    (hj : j ∈ visited cfg s (idsFromTo first last))
    (same : cfg.proposerArraySize.index i = cfg.proposerArraySize.index j) : i = j := by
  obtain ⟨himem, -, hifirst⟩ := (mem_visited (idsFromTo_ascending first last)).mp hi
  obtain ⟨hjmem, -, hjfirst⟩ := (mem_visited (idsFromTo_ascending first last)).mp hj
  by_cases hlt : i < j
  · exact absurd same (hjfirst i himem hlt)
  · by_cases hgt : j < i
    · exact absurd same.symm (hifirst j hjmem hgt)
    · omega

theorem Window.owner (w : Window cfg s ids first last) {i : Int}
    (hi : i ∈ visited cfg s (idsFromTo first last)) :
    ∃ r ∈ ids, s.slot cfg i = s.slot cfg r ∧ (s.slot cfg i).iid = r := by
  obtain ⟨-, hready, -⟩ := (mem_visited (idsFromTo_ascending first last)).mp hi
  obtain ⟨r, hr, hidx⟩ := (w.ready.ready_iff _).mp hready
  have hslot := slot_congr cfg s i hidx
  exact ⟨r, hr, hslot.symm, by rw [← hslot, w.ready.iid_eq r hr]⟩

theorem Window.visit (w : Window cfg s ids first last) {r : Int} (hr : r ∈ ids) :
    ∃ i ∈ visited cfg s (idsFromTo first last),
      cfg.proposerArraySize.index i = cfg.proposerArraySize.index r ∧
        s.slot cfg i = s.slot cfg r := by
  have hmem : r ∈ idsFromTo first last := mem_idsFromTo.mpr (w.inside r hr)
  obtain ⟨i, hi, hidx⟩ := exists_visited hmem (w.ready.ready hr)
  exact ⟨i, hi, hidx, slot_congr cfg s r hidx⟩

/-- Accepts are sent under the id of the record, whichever id it is visited at. -/
theorem Window.accepts (w : Window cfg s ids first last) :
    (acceptEntries cfg s (visited cfg s (idsFromTo first last))).Perm
      ((ids.filter fun r => !hasNoValue cfg s r).map fun r =>
        (r, justifiedEntry cfg (s.slot cfg r))) := by
  let vs := visited cfg s (idsFromTo first last)
  have hnodup : vs.Nodup :=
    nodup_of_ascending ((idsFromTo_ascending first last).sublist (visited_sublist _))
  have howner : ∀ i ∈ vs, hasNoValue cfg s i = hasNoValue cfg s (s.slot cfg i).iid ∧
      justifiedEntry cfg (s.slot cfg i) = justifiedEntry cfg (s.slot cfg (s.slot cfg i).iid) := by
    intro i hi
    obtain ⟨r, -, hslot, hiid⟩ := w.owner hi
    rw [hiid]
    simp only [hasNoValue, hslot, and_self]
  have hperm : ((vs.filter fun i => !hasNoValue cfg s i).map fun i => (s.slot cfg i).iid).Perm
      (ids.filter fun r => !hasNoValue cfg s r) := by
    rw [List.perm_ext_iff_of_nodup]
    · intro r
      simp only [List.mem_map, List.mem_filter]
      constructor
      · rintro ⟨i, ⟨hi, hv⟩, hr⟩
        obtain ⟨r', hr', -, hiid⟩ := w.owner hi
        rw [(howner i hi).1, hr] at hv
        rw [← hr, hiid]
        rw [← hr, hiid] at hv
        exact ⟨hr', hv⟩
      · rintro ⟨hr, hv⟩
        obtain ⟨i, hi, -, hslot⟩ := w.visit hr
        refine ⟨i, ⟨hi, ?_⟩, ?_⟩
        · simpa only [hasNoValue, hslot] using hv
        · rw [hslot, w.ready.iid_eq r hr]
    · apply List.Nodup.map_on _ (hnodup.filter _)
      intro i hi j hj heq
      have hi := (List.mem_filter.mp hi).1
      have hj := (List.mem_filter.mp hj).1
      obtain ⟨-, hiready, -⟩ := (mem_visited (idsFromTo_ascending first last)).mp hi
      obtain ⟨-, hjready, -⟩ := (mem_visited (idsFromTo_ascending first last)).mp hj
      obtain ⟨a, ha, haidx⟩ := (w.ready.ready_iff _).mp hiready
      obtain ⟨b, hb, hbidx⟩ := (w.ready.ready_iff _).mp hjready
      have haiid : (s.slot cfg i).iid = a := by
        rw [← slot_congr cfg s i haidx, w.ready.iid_eq a ha]
      have hbiid : (s.slot cfg j).iid = b := by
        rw [← slot_congr cfg s j hbidx, w.ready.iid_eq b hb]
      have hab : a = b := by rw [← haiid, ← hbiid]; exact heq
      subst hab
      exact visited_inj hi hj (haidx.symm.trans hbidx)
    · exact (nodup_of_ascending w.ascending).filter _
  have hmap : acceptEntries cfg s vs =
      (((vs.filter fun i => !hasNoValue cfg s i).map fun i => (s.slot cfg i).iid).map fun r =>
        (r, justifiedEntry cfg (s.slot cfg r))) := by
    rw [acceptEntries, List.map_map]
    apply List.map_congr_left
    intro i hi
    simp only [Function.comp_apply, ← (howner i (List.mem_filter.mp hi).1).2]
  rw [hmap]
  exact hperm.map _

/-- Ids without a value are visited under their own name unless a lower id of the
window falls into their slot. -/
theorem Window.anyvals (w : Window cfg s ids first last)
    (apart : ∀ r ∈ ids, hasNoValue cfg s r = true → r - cfg.proposerArraySize.size < first) :
    (visited cfg s (idsFromTo first last)).filter (hasNoValue cfg s) =
      ids.filter (hasNoValue cfg s) := by
  have hvisited : ∀ i, i ∈ visited cfg s (idsFromTo first last) ↔ _ := fun i =>
    mem_visited (idsFromTo_ascending first last)
  have hascending : (visited cfg s (idsFromTo first last)).Pairwise (· < ·) :=
    (idsFromTo_ascending first last).sublist (visited_sublist _)
  have howner : ∀ i ∈ visited cfg s (idsFromTo first last), ∀ r ∈ ids,
      cfg.proposerArraySize.index r = cfg.proposerArraySize.index i →
      hasNoValue cfg s r = true → i = r := by
    intro i hi r hr hidx hv
    obtain ⟨himem, -, hifirst⟩ := (hvisited i).mp hi
    obtain ⟨hlow, hhigh⟩ := mem_idsFromTo.mp himem
    have hrmem : r ∈ idsFromTo first last := mem_idsFromTo.mpr (w.inside r hr)
    have hle : i ≤ r := by
      by_cases hlt : r < i
      · exact absurd hidx (hifirst r hrmem hlt)
      · omega
    have hfirst := w.nonneg r hr
    have hnear := apart r hr hv
    exact cfg.proposerArraySize.eq_of_index_eq (by omega) (by omega) hidx.symm (by omega)
      (by omega)
  refine List.Perm.eq_of_pairwise ?_ (hascending.filter _) (w.ascending.filter _) ?_
  · intro a b _ _ hab hba
    omega
  · rw [List.perm_ext_iff_of_nodup ((nodup_of_ascending hascending).filter _)
      ((nodup_of_ascending w.ascending).filter _)]
    intro i
    simp only [List.mem_filter]
    constructor
    · rintro ⟨hi, hv⟩
      obtain ⟨-, hready, -⟩ := (hvisited i).mp hi
      obtain ⟨r, hr, hidx⟩ := (w.ready.ready_iff _).mp hready
      have hvr : hasNoValue cfg s r = true := by
        rw [hasNoValue, slot_congr cfg s i hidx]
        exact hv
      have heq := howner i hi r hr hidx hvr
      subst heq
      exact ⟨hr, hv⟩
    · rintro ⟨hr, hv⟩
      obtain ⟨j, hj, hidx, -⟩ := w.visit hr
      have heq := howner j hj i hr hidx.symm hv
      subst heq
      exact ⟨hj, hv⟩

theorem justifiedEntry_of_no_value {i : Int} (h : hasNoValue cfg s i = true) :
    justifiedEntry cfg (s.slot cfg i) = .any (s.slot cfg i).ballot := by
  simp [justifiedEntry, Option.isNone_iff_eq_none.mp h]

/-- The anyval entries of packed ids, each under the ballot of its packet. -/
def anyvalEntries (cfg : Config) (s : LeaderState) (vs : List Int) : List (Int × Phase2Entry) :=
  (pack anyvalCapacity vs).flatMap fun packet =>
    packet.map fun i => (i, .any (highestBallot (packet.map fun i => (i, (s.slot cfg i).ballot))))

/-- One justified entry for each of the ids, and none for any other instance. -/
def EntriesJustified (cfg : Config) (s : LeaderState) (ids : List Int)
    (entries : List (Int × Phase2Entry)) : Prop :=
  ∀ i, entries.filter (fun e => decide (e.1 = i)) =
    if i ∈ ids then [(i, justifiedEntry cfg (s.slot cfg i))] else []

theorem EntriesJustified.entry {entries : List (Int × Phase2Entry)}
    (h : EntriesJustified cfg s ids entries) {i : Int} {e : Phase2Entry} (mem : (i, e) ∈ entries) :
    i ∈ ids ∧ e = justifiedEntry cfg (s.slot cfg i) := by
  have hfilter : (i, e) ∈ entries.filter (fun e => decide (e.1 = i)) :=
    List.mem_filter.mpr ⟨mem, by simp⟩
  rw [h i] at hfilter
  split at hfilter
  · next hmem => exact ⟨hmem, (Prod.mk.inj (List.mem_singleton.mp hfilter)).2⟩
  · cases hfilter

/-- Every id that is packed has an entry. -/
theorem mem_anyvalEntries {vs : List Int} {i : Int} (hi : i ∈ vs) :
    ∃ b, (i, Phase2Entry.any b) ∈ anyvalEntries cfg s vs := by
  rw [← flatten_pack anyvalCapacity vs, List.mem_flatten] at hi
  obtain ⟨packet, hpacket, hmem⟩ := hi
  exact ⟨_, List.mem_flatMap.mpr ⟨packet, hpacket, List.mem_map.mpr ⟨i, hmem, rfl⟩⟩⟩

theorem mem_of_packed {vs packet : List Int} (hpacket : packet ∈ pack anyvalCapacity vs) {i : Int}
    (hi : i ∈ packet) : i ∈ vs := by
  rw [← flatten_pack anyvalCapacity vs]
  exact List.mem_flatten.mpr ⟨packet, hpacket, hi⟩

/-- Exactly one entry for each id of a list without duplicates. -/
theorem filter_entries {β : Type} {ids : List Int} (distinct : ids.Nodup) (entry : Int → β)
    (i : Int) :
    (ids.map fun r => (r, entry r)).filter (fun e => decide (e.1 = i)) =
      if i ∈ ids then [(i, entry i)] else [] := by
  induction ids with
  | nil => rfl
  | cons r ids ih =>
      obtain ⟨hfresh, hrest⟩ := List.nodup_cons.mp distinct
      rw [List.map_cons, List.filter_cons, ih hrest]
      by_cases h : r = i
      · subst h
        simp [hfresh]
      · simp [h, Ne.symm h]

theorem EntriesJustified.of_perm {entries : List (Int × Phase2Entry)} (distinct : ids.Nodup)
    (all : entries.Perm (ids.map fun r => (r, justifiedEntry cfg (s.slot cfg r)))) :
    EntriesJustified cfg s ids entries := by
  intro i
  have hfilter := all.filter fun e => decide (e.1 = i)
  rw [filter_entries distinct] at hfilter
  split
  · next hmem =>
      rw [if_pos hmem] at hfilter
      exact List.perm_singleton.mp hfilter
  · next hmem =>
      rw [if_neg hmem] at hfilter
      exact hfilter.eq_nil

/-- An anyval entry under the id at which the loop found the slot is justified only when
that is the id of the record, with none of the window below it in the slot. -/
theorem Window.apart_of_justified (w : Window cfg s ids first last)
    {entries : List (Int × Phase2Entry)} (justified : EntriesJustified cfg s ids entries)
    (sent : anyvalEntries cfg s ((visited cfg s (idsFromTo first last)).filter (hasNoValue cfg s)) ⊆
      entries) {r : Int} (hr : r ∈ ids) (hv : hasNoValue cfg s r = true) :
    r - cfg.proposerArraySize.size < first := by
  obtain ⟨i, hi, hidx, hslot⟩ := w.visit hr
  have hvi : hasNoValue cfg s i = true := by
    rw [hasNoValue, hslot]
    exact hv
  obtain ⟨b, hb⟩ := mem_anyvalEntries (List.mem_filter.mpr ⟨hi, hvi⟩)
  obtain ⟨hmem, -⟩ := justified.entry (sent hb)
  have heq : i = r := by
    rw [← w.ready.iid_eq i hmem, hslot, w.ready.iid_eq r hr]
  subst heq
  obtain ⟨hiwin, -, hfirst⟩ := (mem_visited (idsFromTo_ascending first last)).mp hi
  obtain ⟨hlow, hhigh⟩ := mem_idsFromTo.mp hiwin
  have hnonneg := w.nonneg i hr
  have hpos := cfg.proposerArraySize.size_pos
  by_cases hge : first ≤ i - cfg.proposerArraySize.size
  · have hbelow := hfirst (i - cfg.proposerArraySize.size)
      (mem_idsFromTo.mpr ⟨hge, by omega⟩) (by omega)
    exact absurd (cfg.proposerArraySize.index_sub_size (by omega)) hbelow
  · omega

/-- Justified anyval entries have one ballot in each packet. -/
theorem uniform_of_justified {entries : List (Int × Phase2Entry)}
    (justified : EntriesJustified cfg s ids entries)
    (sent : anyvalEntries cfg s (ids.filter (hasNoValue cfg s)) ⊆ entries) :
    ∀ packet ∈ pack anyvalCapacity (ids.filter (hasNoValue cfg s)), ∀ i ∈ packet,
      -1 ≤ (s.slot cfg i).ballot ∧ ∀ j ∈ packet, (s.slot cfg i).ballot = (s.slot cfg j).ballot := by
  intro packet hpacket
  apply (highestBallot_eq_iff _ _).mp
  intro i hi
  obtain ⟨-, hv⟩ := List.mem_filter.mp (mem_of_packed hpacket hi)
  have hentry := sent (List.mem_flatMap.mpr ⟨packet, hpacket, List.mem_map.mpr ⟨i, hi, rfl⟩⟩)
  have heq := (justified.entry hentry).2
  rw [justifiedEntry_of_no_value hv] at heq
  exact Phase2Entry.any.inj heq

/-- Packets of one ballot say what their ids justify. -/
theorem anyvalEntries_of_uniform
    (uniform : ∀ packet ∈ pack anyvalCapacity (ids.filter (hasNoValue cfg s)), ∀ i ∈ packet,
      -1 ≤ (s.slot cfg i).ballot ∧
        ∀ j ∈ packet, (s.slot cfg i).ballot = (s.slot cfg j).ballot) :
    anyvalEntries cfg s (ids.filter (hasNoValue cfg s)) =
      (ids.filter (hasNoValue cfg s)).map fun r => (r, justifiedEntry cfg (s.slot cfg r)) := by
  conv => rhs; rw [← flatten_pack anyvalCapacity (ids.filter (hasNoValue cfg s))]
  rw [List.map_flatten, ← List.flatMap_def]
  apply List.flatMap_congr
  intro packet hpacket
  apply List.map_congr_left
  intro i hi
  obtain ⟨-, hv⟩ := List.mem_filter.mp (mem_of_packed hpacket hi)
  rw [(highestBallot_eq_iff _ _).mpr (uniform packet hpacket) i hi, justifiedEntry_of_no_value hv]

/-- The entries of the visited ids are those that the ids justify exactly when no
anyval goes out under another id or another ballot. -/
theorem Window.entries_iff (w : Window cfg s ids first last)
    {entries : List (Int × Phase2Entry)}
    (sent : entries.Perm (acceptEntries cfg s (visited cfg s (idsFromTo first last)) ++
      packedEntries (pack anyvalCapacity
        (anyvalItems cfg s (visited cfg s (idsFromTo first last)))))) :
    (∀ i, entries.filter (fun e => decide (e.1 = i)) =
        if i ∈ ids then [(i, justifiedEntry cfg (s.slot cfg i))] else []) ↔
      (∀ r ∈ ids, hasNoValue cfg s r = true → r - cfg.proposerArraySize.size < first) ∧
        ∀ packet ∈ pack anyvalCapacity (ids.filter (hasNoValue cfg s)), ∀ i ∈ packet,
          -1 ≤ (s.slot cfg i).ballot ∧
            ∀ j ∈ packet, (s.slot cfg i).ballot = (s.slot cfg j).ballot := by
  change EntriesJustified cfg s ids entries ↔ _
  have hitems : packedEntries (pack anyvalCapacity
      (anyvalItems cfg s (visited cfg s (idsFromTo first last)))) =
        anyvalEntries cfg s ((visited cfg s (idsFromTo first last)).filter (hasNoValue cfg s)) :=
    packedEntries_pack (fun i => (s.slot cfg i).ballot) _
  rw [hitems] at sent
  have hsub := List.Subset.trans (List.subset_append_right _ _) sent.symm.subset
  constructor
  · intro justified
    have hapart : ∀ r ∈ ids, hasNoValue cfg s r = true → r - cfg.proposerArraySize.size < first :=
      fun r hr hv => w.apart_of_justified justified hsub hr hv
    rw [w.anyvals hapart] at hsub
    exact ⟨hapart, uniform_of_justified justified hsub⟩
  · intro ⟨apart, uniform⟩
    rw [w.anyvals apart, anyvalEntries_of_uniform uniform] at sent
    apply EntriesJustified.of_perm (nodup_of_ascending w.ascending)
    refine sent.trans ((w.accepts.append_right _).trans (List.perm_append_comm.trans ?_))
    rw [← List.map_append]
    exact (List.filter_append_perm (hasNoValue cfg s) ids).map _

end Windows

section Batches

variable {cfg : Config} {s : LeaderState} {batch : PromiseBatchMsg}

/-- The ends of the loop of `execute_phase2`. -/
def firstIid (batch : PromiseBatchMsg) : Int :=
  ((batch.data.take batch.count.toNat).head?.map PromiseMsg.iid).getD (-1)

def lastIid (batch : PromiseBatchMsg) : Int :=
  ((batch.data.take batch.count.toNat).getLast?.map PromiseMsg.iid).getD (-1)

/-- The loop of `execute_phase2` runs over when it ends at `INT_MAX`. -/
def PromiseBatchMsg.Endless (batch : PromiseBatchMsg) : Prop :=
  firstIid batch ≤ lastIid batch ∧ lastIid batch = 2147483647

instance (batch : PromiseBatchMsg) : Decidable batch.Endless :=
  inferInstanceAs (Decidable (_ ∧ _))

/-- `none` is a call that does not return. -/
def leaderHandlePromiseMsg? (cfg : Config) (s : LeaderState) (batch : PromiseBatchMsg) :
    Option LeaderState :=
  if batch.Endless then none else some (leaderHandlePromiseMsg cfg s batch)

theorem PromiseBatchMsg.WellFormed.take_eq (wf : batch.WellFormed cfg) :
    batch.data.take batch.count.toNat = batch.data := by
  rw [wf.count_eq]
  simp

theorem le_getLast {proms : List PromiseMsg} (ascending : proms.Pairwise fun a b => a.iid < b.iid)
    {p : PromiseMsg} (hp : p ∈ proms) {z : PromiseMsg} (last : proms.getLast? = some z) :
    p.iid ≤ z.iid := by
  have hz : ∃ front, proms = front ++ [z] := by
    rw [List.getLast?_eq_some_iff] at last
    exact last
  obtain ⟨front, rfl⟩ := hz
  cases List.mem_append.mp hp with
  | inl hfront =>
      have := (List.pairwise_append.mp ascending).2.2 p hfront z List.mem_cons_self
      omega
  | inr heq =>
      obtain rfl := List.mem_singleton.mp heq
      exact Int.le_refl _

theorem PromiseBatchMsg.WellFormed.window_ends (wf : batch.WellFormed cfg) {p : PromiseMsg}
    (hp : p ∈ batch.data) :
    0 ≤ firstIid batch ∧ firstIid batch ≤ p.iid ∧ p.iid ≤ lastIid batch := by
  have hascending := wf.ascending
  simp only [firstIid, lastIid]
  rw [wf.take_eq]
  rw [List.pairwise_map] at hascending
  cases hdata : batch.data with
  | nil =>
      rw [hdata] at hp
      cases hp
  | cons q qs =>
      rw [hdata] at hp hascending
      refine ⟨?_, ?_, ?_⟩
      · exact wf.ids_nonneg q (by rw [hdata]; exact List.mem_cons_self)
      · cases List.mem_cons.mp hp with
        | inl heq =>
            subst heq
            exact Int.le_refl _
        | inr hmem =>
            have := (List.pairwise_cons.mp hascending).1 p hmem
            simp only [List.head?_cons, Option.map_some, Option.getD_some]
            omega
      · obtain ⟨z, hz⟩ : ∃ z, (q :: qs).getLast? = some z := ⟨_, List.getLast?_cons⟩
        rw [hz]
        exact le_getLast hascending hp hz

theorem batch_window (wf : batch.WellFormed cfg) (none : NoneReady s) :
    Window cfg (storePromises cfg s batch) (reached cfg s batch) (firstIid batch)
      (lastIid batch) := by
  have hsub : (reached cfg s batch).Sublist (batch.data.map PromiseMsg.iid) := by
    simp only [reached]
    rw [wf.take_eq]
    exact reachedQuorum_sublist s batch.data
  have hmem : ∀ r ∈ reached cfg s batch, ∃ p ∈ batch.data, p.iid = r := by
    intro r hr
    exact List.mem_map.mp (hsub.subset hr)
  refine ⟨?_, wf.ascending.sublist hsub, ?_, ?_⟩
  · have hstart : ReadyExactly cfg s [] := none.readyExactly
    exact readyExactly_stored hstart (batch.data.take batch.count.toNat)
  · intro r hr
    obtain ⟨p, hp, rfl⟩ := hmem r hr
    exact (wf.window_ends hp).1
  · intro r hr
    obtain ⟨p, hp, rfl⟩ := hmem r hr
    exact (wf.window_ends hp).2

theorem leaderHandlePromiseMsg_eq (cfg : Config) (s : LeaderState) (batch : PromiseBatchMsg) :
    leaderHandlePromiseMsg cfg s batch =
      executePhase2 cfg (storePromises cfg s batch) (firstIid batch) (lastIid batch) :=
  rfl

/-- The rule for the loop of `execute_phase2` and the buffer around it. -/
theorem executePhase2_keeps (Inv : LeaderState → Prop)
    (instances : ∀ u i, Inv u → Inv (phase2Instance cfg u i))
    (init : ∀ u, Inv u → Inv u.initAnymsg) (flush : ∀ u, Inv u → Inv u.flushAnymsg)
    {s : LeaderState} (inv : Inv s) (first last : Int) : Inv (executePhase2 cfg s first last) := by
  have hloop : Inv ((idsFromTo first last).foldl (phase2Instance cfg) s.initAnymsg) :=
    List.foldlRecOn _ _ (init s inv) fun u hu i _ => instances u i hu
  simp only [executePhase2]
  split
  · exact flush _ hloop
  · exact hloop

/-- The rule for a batch of promises: what each of its loops keeps. -/
theorem leaderHandlePromiseMsg_keeps (Inv : LeaderState → Prop) {batch : PromiseBatchMsg}
    (promises : ∀ u, ∀ p ∈ batch.data.take batch.count.toNat, Inv u →
      Inv (handlePromise cfg u p batch.acceptorId).1)
    (instances : ∀ u i, Inv u → Inv (phase2Instance cfg u i))
    (init : ∀ u, Inv u → Inv u.initAnymsg) (flush : ∀ u, Inv u → Inv u.flushAnymsg)
    {s : LeaderState} (inv : Inv s) : Inv (leaderHandlePromiseMsg cfg s batch) := by
  have hstored : Inv (storePromises cfg s batch) :=
    List.foldlRecOn _ _ inv fun u hu p hp => promises u p hp hu
  rw [leaderHandlePromiseMsg_eq]
  exact executePhase2_keeps Inv instances init flush hstored _ _

theorem storePromises_sent (cfg : Config) (s : LeaderState) (batch : PromiseBatchMsg) :
    (storePromises cfg s batch).sent = s.sent := by
  simp only [storePromises]
  induction batch.data.take batch.count.toNat generalizing s with
  | nil => rfl
  | cons prom proms ih =>
      rw [List.foldl_cons, ih]
      have outcome := handlePromise_outcome cfg s prom batch.acceptorId
      generalize handlePromise cfg s prom batch.acceptorId = res at outcome ⊢
      cases outcome <;> rfl

/-- Everything that becomes ready is finished by the same call. -/
theorem batch_finishes (wf : batch.WellFormed cfg) (none : NoneReady s) :
    (∀ i ∈ reached cfg s batch, ((leaderHandlePromiseMsg cfg s batch).slot cfg i).iid = i ∧
        ((leaderHandlePromiseMsg cfg s batch).slot cfg i).status = .p1Finished) ∧
      NoneReady (leaderHandlePromiseMsg cfg s batch) := by
  have w := batch_window wf none
  rw [leaderHandlePromiseMsg_eq]
  constructor
  · intro i hi
    obtain ⟨hiid, hstatus⟩ := executePhase2_slot cfg (storePromises cfg s batch)
      (firstIid batch) (lastIid batch) (cfg.proposerArraySize.index i)
    have hready : ((storePromises cfg s batch).proposerArray
        (cfg.proposerArraySize.index i)).status = .p1Ready := w.ready.ready hi
    rw [if_pos ⟨hready, i, mem_idsFromTo.mpr (w.inside i hi), rfl⟩] at hstatus
    exact ⟨hiid.trans (w.ready.iid_eq i hi), hstatus⟩
  · intro k
    rw [(executePhase2_slot cfg _ _ _ k).2]
    split
    · simp
    · next hnot =>
        intro hready
        obtain ⟨i, hi, hidx⟩ := (w.ready.ready_iff k).mp hready
        exact hnot ⟨hready, i, mem_idsFromTo.mpr (w.inside i hi), hidx⟩

theorem leader_noneReady {propId : Int} {guard : LeaderState → LeaderEvent → Prop}
    (h : Reachable (leaderSystem cfg propId) guard s) : NoneReady s := by
  refine Reachable.invariant ?_ ?_ h
  · intro s start
    subst start
    exact noneReady_leaderInit cfg propId
  · intro s event t _ none _ move
    cases event with
    | promises batch =>
        obtain ⟨wf, rfl⟩ := move
        exact (batch_finishes wf none).2
    | phase1Timer =>
        obtain rfl := move
        exact none.phase1CheckCb
    | phase2Timer => exact none.phase2CheckCb move
    | deliver iid =>
        obtain rfl := move
        exact none

theorem apart_iff (wf : batch.WellFormed cfg) {i : Int} (hi : i ∈ reached cfg s batch) :
    (∀ prom ∈ batch.data, i - cfg.proposerArraySize.size < prom.iid) ↔
      i - cfg.proposerArraySize.size < firstIid batch := by
  constructor
  · intro apart
    obtain ⟨q, hq, hfirst⟩ : ∃ q ∈ batch.data, q.iid = firstIid batch := by
      simp only [firstIid]
      rw [wf.take_eq]
      cases hdata : batch.data with
      | nil =>
          have hnone : reached cfg s batch = [] := by
            simp [reached, hdata, reachedQuorum]
          rw [hnone] at hi
          cases hi
      | cons q qs => exact ⟨q, List.mem_cons_self, rfl⟩
    rw [← hfirst]
    exact apart q hq
  · intro apart prom hprom
    have := (wf.window_ends hprom).2.1
    omega

/-- The entries of a batch are those of its ready records exactly when the ids without a
value are alone in their slots and those packed into one message have one ballot. -/
theorem batch_entries_iff (wf : batch.WellFormed cfg) (none : NoneReady s) :
    ∃ new, (leaderHandlePromiseMsg cfg s batch).sent = new ++ s.sent ∧
      (EntriesJustified cfg (storePromises cfg s batch) (reached cfg s batch) (phase2Entries new) ↔
        (∀ i ∈ reached cfg s batch, hasNoValue cfg (storePromises cfg s batch) i = true →
          ∀ prom ∈ batch.data, i - cfg.proposerArraySize.size < prom.iid) ∧
        ∀ packet ∈ pack anyvalCapacity
            ((reached cfg s batch).filter (hasNoValue cfg (storePromises cfg s batch))),
          ∀ i ∈ packet, -1 ≤ ((storePromises cfg s batch).slot cfg i).ballot ∧
            ∀ j ∈ packet, ((storePromises cfg s batch).slot cfg i).ballot =
              ((storePromises cfg s batch).slot cfg j).ballot) := by
  have w := batch_window wf none
  obtain ⟨new, hsent, hperm⟩ := executePhase2_sent cfg (storePromises cfg s batch)
    (firstIid batch) (lastIid batch)
  rw [storePromises_sent, ← leaderHandlePromiseMsg_eq] at hsent
  refine ⟨new, hsent, (w.entries_iff hperm).trans (and_congr_left' ?_)⟩
  exact forall₂_congr fun i hi => imp_congr_right fun _ => (apart_iff wf hi).symm

end Batches

/-- The promises of an acceptor without values for instances 0 and 1. -/
def emptyPromises (ballot₀ ballot₁ acceptorId : Int) : PromiseBatchMsg where
  acceptorId := acceptorId
  count := 2
  data := [{ iid := 0, ballot := ballot₀, valueBallot := -1, valueSize := 0, value := [] },
    { iid := 1, ballot := ballot₁, valueBallot := -1, valueSize := 0, value := [] }]

theorem emptyPromises_wellFormed (ballot₀ ballot₁ : Int) {a : Int} (low : 0 ≤ a) (high : a < 3) :
    (emptyPromises ballot₀ ballot₁ a).WellFormed .shipped := by
  refine ⟨rfl, low, high, ?_, ?_⟩
  · intro p hp
    simp only [emptyPromises, List.mem_cons, List.not_mem_nil, or_false] at hp
    cases hp with
    | inl h | inr h =>
        subst h
        simp
  · simp [emptyPromises]

/-- The promises of an acceptor for instances 0 and 1, with a value for the second. -/
def valuedPromises (valueBallot : Int) (value : Bytes) (acceptorId : Int) : PromiseBatchMsg where
  acceptorId := acceptorId
  count := 2
  data := [{ iid := 0, ballot := 20, valueBallot := -1, valueSize := 0, value := [] },
    { iid := 1, ballot := 20, valueBallot := valueBallot, valueSize := value.length
      value := value }]

theorem valuedPromises_wellFormed (valueBallot : Int) (value : Bytes) {a : Int} (low : 0 ≤ a)
    (high : a < 3) : (valuedPromises valueBallot value a).WellFormed .shipped := by
  refine ⟨rfl, low, high, ?_, ?_⟩
  · intro p hp
    simp only [valuedPromises, List.mem_cons, List.not_mem_nil, or_false] at hp
    cases hp with
    | inl h | inr h =>
        subst h
        simp
  · simp [valuedPromises]

/-- Two of three acceptors have answered for instances 0 and 1. -/
def twoAnswers (s : LeaderState) (ballot₀ ballot₁ : Int) : LeaderState :=
  leaderHandlePromiseMsg .shipped
    (leaderHandlePromiseMsg .shipped s (emptyPromises ballot₀ ballot₁ 0))
    (emptyPromises ballot₀ ballot₁ 1)

theorem twoAnswers_reachable {s : LeaderState} (ballot₀ ballot₁ : Int)
    (h : Reachable (leaderSystem .shipped 0) anyStep s) :
    Reachable (leaderSystem .shipped 0) anyStep (twoAnswers s ballot₀ ballot₁) := by
  have hbatch : ∀ (t : LeaderState) (a : Int), 0 ≤ a → a < 3 →
      Reachable (leaderSystem .shipped 0) anyStep t →
      Reachable (leaderSystem .shipped 0) anyStep
        (leaderHandlePromiseMsg .shipped t (emptyPromises ballot₀ ballot₁ a)) := by
    intro t a low high ht
    refine .step (a := .promises (emptyPromises ballot₀ ballot₁ a)) ht trivial ?_
    exact ⟨emptyPromises_wellFormed ballot₀ ballot₁ low high, rfl⟩
  exact hbatch _ 1 (by decide) (by decide) (hbatch _ 0 (by decide) (by decide) h)

theorem leaderInit_reachable :
    Reachable (leaderSystem .shipped 0) anyStep (leaderInit .shipped 0) := .init rfl

/-- The phase-2 timer retries instance 0, then the phase-1 timer retries both. -/
def retriedLeader : LeaderState :=
  phase1CheckCb .shipped ((phase2CheckCb .shipped (leaderInit .shipped 0)).getD
    (leaderInit .shipped 0))

theorem retriedLeader_reachable : Reachable (leaderSystem .shipped 0) anyStep retriedLeader := by
  have htimer : (phase2CheckCb .shipped (leaderInit .shipped 0)).isSome = true := by
    decide +kernel
  refine .step (a := .phase1Timer) (.step (a := .phase2Timer) leaderInit_reachable trivial ?_)
    trivial rfl
  obtain ⟨t, ht⟩ := Option.isSome_iff_exists.mp htimer
  change phase2CheckCb .shipped (leaderInit .shipped 0) = some _
  rw [ht]
  rfl

end LibFastPaxos
