import Mathlib.Data.List.Basic

/-!
Filling packets of a bounded number of entries: an entry goes into the packet
being filled, which is closed as soon as it is full, and the last packet is
closed at the end. Nothing is lost, doubled or reordered.
-/

namespace Packing

universe u
variable {α : Type u}

/-- The closed packets, oldest first, and the one being filled. -/
structure Packer (α : Type u) where
  closed : List (List α)
  filling : List α

def Packer.push (cap : Nat) (p : Packer α) (x : α) : Packer α :=
  if p.filling.length + 1 = cap then
    { closed := p.closed ++ [p.filling ++ [x]], filling := [] }
  else { p with filling := p.filling ++ [x] }

def Packer.packets (p : Packer α) : List (List α) :=
  if p.filling = [] then p.closed else p.closed ++ [p.filling]

def Packer.pushAll (cap : Nat) (p : Packer α) (xs : List α) : Packer α :=
  xs.foldl (Packer.push cap) p

theorem Packer.pushAll_append (cap : Nat) (p : Packer α) (xs ys : List α) :
    p.pushAll cap (xs ++ ys) = (p.pushAll cap xs).pushAll cap ys :=
  List.foldl_append

def pack (cap : Nat) (xs : List α) : List (List α) :=
  (Packer.pushAll cap { closed := [], filling := [] } xs).packets

theorem Packer.flatten_packets (p : Packer α) :
    p.packets.flatten = p.closed.flatten ++ p.filling := by
  simp only [packets]
  split
  · next h => simp [h]
  · simp

theorem Packer.flatten_push (cap : Nat) (p : Packer α) (x : α) :
    (p.push cap x).packets.flatten = p.packets.flatten ++ [x] := by
  rw [flatten_packets, flatten_packets]
  simp only [push]
  split <;> simp

theorem Packer.flatten_pushAll (cap : Nat) (p : Packer α) (xs : List α) :
    (p.pushAll cap xs).packets.flatten = p.packets.flatten ++ xs := by
  induction xs generalizing p with
  | nil => simp [pushAll]
  | cons x xs ih =>
      have h := ih (p.push cap x)
      rw [flatten_push, List.append_assoc] at h
      exact h

theorem flatten_pack (cap : Nat) (xs : List α) : (pack cap xs).flatten = xs := by
  simp only [pack]
  rw [Packer.flatten_pushAll]
  rfl

/-- A packet never reaches the capacity while it is being filled. -/
theorem Packer.filling_lt {cap : Nat} {p : Packer α} (h : p.filling.length < cap) (x : α) :
    (p.push cap x).filling.length < cap := by
  simp only [push]
  split
  · next => simp; omega
  · next hne =>
      simp only [List.length_append, List.length_singleton]
      omega

theorem Packer.pushAll_filling_lt {cap : Nat} {p : Packer α} (h : p.filling.length < cap)
    (xs : List α) : (p.pushAll cap xs).filling.length < cap := by
  induction xs generalizing p with
  | nil => exact h
  | cons x xs ih => exact ih (Packer.filling_lt h x)

/-- What was closed before is a prefix of what is closed after. -/
theorem Packer.closed_append (cap : Nat) (p : Packer α) (x : α) :
    (p.push cap x).closed =
      p.closed ++ (if p.filling.length + 1 = cap then [p.filling ++ [x]] else []) := by
  simp only [push]
  split <;> simp

theorem Packer.filling_eq (cap : Nat) (p : Packer α) (x : α) :
    (p.push cap x).filling =
      if p.filling.length + 1 = cap then [] else p.filling ++ [x] := by
  simp only [push]
  split <;> rfl

/-- Closed packets are full and the one being filled is not. -/
structure Packer.Tidy (cap : Nat) (p : Packer α) : Prop where
  room : p.filling.length < cap
  full : ∀ q ∈ p.closed, q.length = cap

theorem Packer.tidy_start (α : Type u) (cap : Nat) (pos : 0 < cap) :
    ({ closed := [], filling := [] } : Packer α).Tidy cap :=
  ⟨pos, nofun⟩

theorem Packer.Tidy.push {cap : Nat} {p : Packer α} (h : p.Tidy cap) (x : α) :
    (p.push cap x).Tidy cap := by
  refine ⟨Packer.filling_lt h.room x, ?_⟩
  intro q hq
  rw [Packer.closed_append] at hq
  cases List.mem_append.mp hq with
  | inl hold => exact h.full q hold
  | inr hnew =>
      split at hnew
      · next hlen =>
          rw [List.mem_singleton.mp hnew, List.length_append]
          exact hlen
      · cases hnew

theorem Packer.Tidy.pushAll {cap : Nat} {p : Packer α} (h : p.Tidy cap) (xs : List α) :
    (p.pushAll cap xs).Tidy cap := by
  induction xs generalizing p with
  | nil => exact h
  | cons x xs ih => exact ih (h.push x)

/-- No packet is empty or beyond the capacity. -/
theorem Packer.Tidy.packets {cap : Nat} {p : Packer α} (h : p.Tidy cap) {q : List α}
    (mem : q ∈ p.packets) : 0 < q.length ∧ q.length ≤ cap := by
  have hroom := h.room
  simp only [Packer.packets] at mem
  split at mem
  · rw [h.full q mem]
    omega
  · next hne =>
      cases List.mem_append.mp mem with
      | inl hold =>
          rw [h.full q hold]
          omega
      | inr hnew =>
          rw [List.mem_singleton.mp hnew]
          exact ⟨List.length_pos_iff.mpr hne, Nat.le_of_lt hroom⟩

/-- What is left in the packet being filled when the others took `cap` entries each. -/
theorem Packer.Tidy.filling_length {cap : Nat} {p : Packer α} (h : p.Tidy cap) :
    p.filling.length = p.packets.flatten.length % cap := by
  have hclosed : ∀ qs : List (List α), (∀ q ∈ qs, q.length = cap) →
      qs.flatten.length = cap * qs.length := by
    intro qs
    induction qs with
    | nil => exact fun _ => rfl
    | cons q qs ih =>
        intro hall
        rw [List.flatten_cons, List.length_append, hall q List.mem_cons_self,
          ih fun q' hq' => hall q' (List.mem_cons_of_mem q hq'), List.length_cons, Nat.mul_succ]
        omega
  rw [Packer.flatten_packets, List.length_append, hclosed p.closed h.full, Nat.mul_add_mod,
    Nat.mod_eq_of_lt h.room]

theorem length_of_mem_pack {cap : Nat} (pos : 0 < cap) {xs : List α} {q : List α}
    (mem : q ∈ pack cap xs) : 0 < q.length ∧ q.length ≤ cap :=
  ((Packer.tidy_start α cap pos).pushAll xs).packets mem

/-- Packing does not look at the entries. -/
theorem pack_map {β : Type u} (cap : Nat) (f : α → β) (xs : List α) :
    pack cap (xs.map f) = (pack cap xs).map (List.map f) := by
  have hpush : ∀ (p : Packer α) (q : Packer β) (xs : List α),
      q.closed = p.closed.map (List.map f) → q.filling = p.filling.map f →
      (q.pushAll cap (xs.map f)).closed = (p.pushAll cap xs).closed.map (List.map f) ∧
        (q.pushAll cap (xs.map f)).filling = (p.pushAll cap xs).filling.map f := by
    intro p q xs
    induction xs generalizing p q with
    | nil => exact fun hclosed hfilling => ⟨hclosed, hfilling⟩
    | cons x xs ih =>
        intro hclosed hfilling
        apply ih (p.push cap x) (q.push cap (f x))
        · rw [Packer.closed_append, Packer.closed_append, hclosed, hfilling]
          split <;> simp_all
        · rw [Packer.filling_eq, Packer.filling_eq, hfilling]
          split <;> simp_all
  obtain ⟨hclosed, hfilling⟩ :=
    hpush { closed := [], filling := [] } { closed := [], filling := [] } xs rfl rfl
  simp only [pack, Packer.packets]
  rw [hclosed, hfilling]
  by_cases h : (Packer.pushAll cap { closed := [], filling := [] } xs).filling = []
  · simp [h]
  · simp [h]

/-! ### Loops over items that are apart -/

section Loops

universe v w
variable {σ : Type v} {ι : Type w} {β : Type u}

theorem toList_append_filterMap (f : ι → Option β) (i : ι) (is : List ι) :
    (f i).toList ++ is.filterMap f = (i :: is).filterMap f := by
  simp only [List.filterMap_eq_flatMap_toList, List.flatMap_cons]

/-- A loop that adds one entry for an item and leaves what later items find alone adds the
entries of the state in which it starts. -/
theorem foldl_entries {f : σ → ι → σ} {entry : σ → ι → Option β} (apart : ι → ι → Prop)
    (ok : σ → ι → Prop) (Inv : σ → List β → Prop)
    (entries : ∀ s i j, apart i j → entry (f s i) j = entry s j)
    (oks : ∀ s i j, apart i j → ok s j → ok (f s i) j)
    (keeps : ∀ s out i, Inv s out → ok s i → Inv (f s i) (out ++ (entry s i).toList))
    {is : List ι} (pairwise : is.Pairwise apart) {s : σ} {out : List β} (inv : Inv s out)
    (all : ∀ i ∈ is, ok s i) : Inv (is.foldl f s) (out ++ is.filterMap (entry s)) := by
  induction is generalizing s out with
  | nil =>
      rw [List.filterMap_nil, List.append_nil]
      exact inv
  | cons i is ih =>
      obtain ⟨hi, his⟩ := List.pairwise_cons.mp pairwise
      have hrest := ih his (keeps s out i inv (all i List.mem_cons_self)) fun j hj =>
        oks s i j (hi j hj) (all j (List.mem_cons_of_mem i hj))
      have hentries : is.filterMap (entry (f s i)) = is.filterMap (entry s) :=
        List.filterMap_congr fun j hj => entries s i j (hi j hj)
      rw [hentries, List.append_assoc, toList_append_filterMap] at hrest
      exact hrest

end Loops
end Packing
