import Mathlib.Data.Int.Bitwise

/-!
Byte buffers that hold 32-bit integers, least significant byte first, and the loops
that read records out of them at offsets they advance themselves.
-/

namespace Memory

universe u

/-- What a signed 32-bit integer can be. -/
structure FitsInt32 (x : Int) : Prop where
  low : -2147483648 ≤ x
  high : x ≤ 2147483647

instance (x : Int) : Decidable (FitsInt32 x) :=
  decidable_of_iff (-2147483648 ≤ x ∧ x ≤ 2147483647) ⟨fun h => ⟨h.1, h.2⟩, fun h => ⟨h.1, h.2⟩⟩

def le32 (x : Int) : List UInt8 :=
  let n := (x % 2 ^ 32).toNat
  [UInt8.ofNat n, UInt8.ofNat (n / 256), UInt8.ofNat (n / 65536), UInt8.ofNat (n / 16777216)]

def int32 (b₀ b₁ b₂ b₃ : UInt8) : Int :=
  Int.bmod (b₀.toNat + 256 * b₁.toNat + 65536 * b₂.toNat + 16777216 * b₃.toNat : Nat) (2 ^ 32)

def ints (xs : List Int) : List UInt8 := xs.flatMap le32

/-- The integer at an offset, `none` outside the buffer. -/
def intAt (mem : List UInt8) (off : Int) : Option Int :=
  if off < 0 then none
  else match mem.drop off.toNat with
    | b₀ :: b₁ :: b₂ :: b₃ :: _ => some (int32 b₀ b₁ b₂ b₃)
    | _ => none

/-- At most `n` bytes from an offset on, fewer where the buffer ends. -/
def bytesAt (mem : List UInt8) (off n : Int) : List UInt8 := (mem.drop off.toNat).take n.toNat

@[simp] theorem le32_length (x : Int) : (le32 x).length = 4 := rfl

@[simp] theorem ints_length (xs : List Int) : (ints xs).length = 4 * xs.length := by
  induction xs with
  | nil => rfl
  | cons x xs ih =>
      rw [ints, List.flatMap_cons, List.length_append, ← ints, ih]
      simp only [le32_length, List.length_cons]
      omega

theorem bmod_fits (n : Int) : FitsInt32 (Int.bmod n (2 ^ 32)) := by
  have hlow := Int.le_bmod (x := n) (m := 2 ^ 32) (Nat.two_pow_pos 32)
  have hhigh := Int.bmod_lt (x := n) (m := 2 ^ 32) (Nat.two_pow_pos 32)
  exact ⟨by simpa using hlow, Int.le_of_lt_add_one (by simpa using hhigh)⟩

theorem intAt_fits {mem : List UInt8} {off x : Int} (h : intAt mem off = some x) :
    FitsInt32 x := by
  simp only [intAt] at h
  split at h
  · cases h
  · split at h
    · obtain rfl := Option.some.inj h
      exact bmod_fits _
    · cases h

theorem bmod_emod_of_fits {x : Int} (fits : FitsInt32 x) :
    Int.bmod (x % 2 ^ 32) (2 ^ 32) = x := by
  have hcast : x % 2 ^ 32 = x % ((2 ^ 32 : Nat) : Int) := rfl
  rw [hcast, Int.emod_bmod]
  exact Int.bmod_eq_of_le (by simpa using fits.low) (by simpa using Int.lt_add_one_of_le fits.high)

theorem int32_le32 {x : Int} (fits : FitsInt32 x) {n : Nat} (hn : n = (x % 2 ^ 32).toNat) :
    int32 (UInt8.ofNat n) (UInt8.ofNat (n / 256)) (UInt8.ofNat (n / 65536))
      (UInt8.ofNat (n / 16777216)) = x := by
  have hbyte : ∀ m, (UInt8.ofNat m).toNat = m % 256 := fun m => UInt8.toNat_ofNat'
  have hsum : n % 256 + 256 * (n / 256 % 256) + 65536 * (n / 65536 % 256) +
      16777216 * (n / 16777216 % 256) = n := by omega
  have hmod : (n : Int) = x % 2 ^ 32 := by omega
  unfold int32
  rw [hbyte, hbyte, hbyte, hbyte, hsum, hmod, bmod_emod_of_fits fits]

theorem intAt_of_append (before after : List UInt8) {x : Int} (fits : FitsInt32 x) :
    intAt (before ++ (le32 x ++ after)) before.length = some x := by
  have hoff : ¬ (before.length : Int) < 0 := by omega
  simp only [intAt, hoff, if_false, Int.toNat_natCast, List.drop_left, le32, List.cons_append,
    List.nil_append, int32_le32 fits rfl]

theorem intAt_of_le {mem : List UInt8} {off : Int} (low : 0 ≤ off) (high : off + 4 ≤ mem.length) :
    ∃ x, intAt mem off = some x := by
  have hlen : 4 ≤ (mem.drop off.toNat).length := by
    rw [List.length_drop]
    omega
  simp only [intAt, if_neg (Int.not_lt.mpr low)]
  match mem.drop off.toNat, hlen with
  | b₀ :: b₁ :: b₂ :: b₃ :: _, _ => exact ⟨_, rfl⟩

/-! ### Where a buffer holds what -/

def write (mem : List UInt8) (off : Int) (bs : List UInt8) : List UInt8 :=
  mem.take off.toNat ++ (bs ++ mem.drop (off.toNat + bs.length))

/-- The buffer holds these bytes at this offset. -/
def Holds (mem : List UInt8) (off : Int) (bs : List UInt8) : Prop :=
  ∃ before after, mem = before ++ (bs ++ after) ∧ (before.length : Int) = off

section Holds

variable {mem bs cs : List UInt8} {off x : Int}

theorem Holds.of_isPrefix (h : bs <+: mem) : Holds mem 0 bs := by
  obtain ⟨after, rfl⟩ := h
  exact ⟨[], after, rfl, rfl⟩

theorem Holds.left (h : Holds mem off (bs ++ cs)) : Holds mem off bs := by
  obtain ⟨before, after, rfl, hoff⟩ := h
  exact ⟨before, cs ++ after, by simp only [List.append_assoc], hoff⟩

theorem Holds.right (h : Holds mem off (bs ++ cs)) : Holds mem (off + bs.length) cs := by
  obtain ⟨before, after, rfl, hoff⟩ := h
  refine ⟨before ++ bs, after, by simp only [List.append_assoc], ?_⟩
  rw [List.length_append, Nat.cast_add, hoff]

theorem Holds.append (h : Holds mem off bs) (behind : Holds mem (off + bs.length) cs) :
    Holds mem off (bs ++ cs) := by
  obtain ⟨before, after, rfl, hoff⟩ := h
  obtain ⟨before', after', hmem, hoff'⟩ := behind
  have hlen : (before ++ bs).length = before'.length := by
    rw [List.length_append]
    omega
  rw [← List.append_assoc] at hmem
  obtain ⟨-, hafter⟩ := List.append_inj hmem hlen
  refine ⟨before, after', ?_, hoff⟩
  rw [hafter, List.append_assoc]

theorem Holds.intAt {xs : List Int} (h : Holds mem off (ints xs))
    (fits : ∀ y ∈ xs, FitsInt32 y) (i : Nat) (hx : xs[i]? = some x) :
    Memory.intAt mem (off + 4 * i) = some x := by
  induction xs generalizing off i with
  | nil => cases hx
  | cons y xs ih =>
      rw [ints, List.flatMap_cons] at h
      cases i with
      | zero =>
          obtain rfl : y = x := by simpa using hx
          obtain ⟨before, after, rfl, rfl⟩ := h.left
          have hfirst := intAt_of_append before after (fits y List.mem_cons_self)
          simpa using hfirst
      | succ i =>
          have hrest := ih h.right (fun z hz => fits z (List.mem_cons_of_mem y hz)) i
            (by simpa using hx)
          have hoff : off + (le32 y).length + 4 * (i : Int) = off + 4 * ((i + 1 : Nat) : Int) := by
            rw [le32_length]
            omega
          rw [← hoff]
          exact hrest

theorem Holds.bytesAt (h : Holds mem off bs) : Memory.bytesAt mem off bs.length = bs := by
  obtain ⟨before, after, rfl, rfl⟩ := h
  simp [Memory.bytesAt]

theorem Holds.nil (low : 0 ≤ off) (high : off ≤ mem.length) : Holds mem off [] := by
  refine ⟨mem.take off.toNat, mem.drop off.toNat, ?_, ?_⟩
  · rw [List.nil_append, List.take_append_drop]
  · rw [List.length_take]
    omega

/-- What follows, as far as the buffer goes. -/
theorem Holds.extend (h : Holds mem off bs) {n : Nat} (room : off + bs.length + n ≤ mem.length) :
    ∃ xs, xs.length = n ∧ Holds mem off (bs ++ xs) := by
  obtain ⟨before, after, rfl, rfl⟩ := h
  simp only [List.length_append] at room
  refine ⟨after.take n, ?_, before, after.drop n, ?_, rfl⟩
  · rw [List.length_take]
    omega
  · rw [List.append_assoc bs, List.take_append_drop]

theorem Holds.overwrite {xs : List UInt8} (h : Holds mem off (bs ++ (xs ++ cs)))
    (ys : List UInt8) (same : ys.length = xs.length) :
    Holds (write mem (off + bs.length) ys) off (bs ++ (ys ++ cs)) := by
  obtain ⟨before, after, rfl, rfl⟩ := h
  refine ⟨before, after, ?_, rfl⟩
  have hoff : ((before.length : Int) + bs.length).toNat = (before ++ bs).length := by
    rw [List.length_append]
    omega
  have hmem : before ++ (bs ++ (xs ++ cs) ++ after) = (before ++ bs) ++ (xs ++ (cs ++ after)) := by
    simp only [List.append_assoc]
  rw [write, hoff, hmem, List.take_left, ← List.drop_drop, List.drop_left, same, List.drop_left]
  simp only [List.append_assoc]

theorem write_length {xs : List UInt8} (low : 0 ≤ off) (high : off + xs.length ≤ mem.length) :
    (write mem off xs).length = mem.length := by
  simp only [write, List.length_append, List.length_take, List.length_drop]
  omega

/-- Bytes written right behind. -/
theorem Holds.append_write {xs : List UInt8} (h : Holds mem off bs)
    (room : off + bs.length + xs.length ≤ mem.length) :
    Holds (write mem (off + bs.length) xs) off (bs ++ xs) := by
  obtain ⟨ys, hlen, hext⟩ := h.extend room
  have hsplit : bs ++ ys = bs ++ (ys ++ []) := by rw [List.append_nil]
  rw [hsplit] at hext
  have hwritten := hext.overwrite xs hlen.symm
  rwa [List.append_nil] at hwritten

/-! Writes at offsets that are known. -/

theorem getElem?_write (low : 0 ≤ off) (high : off + bs.length ≤ mem.length) (k : Nat) :
    (write mem off bs)[k]? =
      if off ≤ k ∧ (k : Int) < off + bs.length then bs[k - off.toNat]? else mem[k]? := by
  have hlen : (mem.take off.toNat).length = off.toNat := by
    rw [List.length_take]
    omega
  rw [write]
  by_cases before : (k : Int) < off
  · rw [List.getElem?_append_left (by omega), List.getElem?_take, if_pos (by omega),
      if_neg (by omega)]
  · rw [List.getElem?_append_right (by omega), hlen]
    by_cases inside : (k : Int) < off + bs.length
    · rw [List.getElem?_append_left (by omega), if_pos ⟨by omega, inside⟩]
    · rw [List.getElem?_append_right (by omega), List.getElem?_drop, if_neg (by omega)]
      congr 1
      omega

theorem holds_iff :
    Holds mem off cs ↔ 0 ≤ off ∧ off + cs.length ≤ mem.length ∧
      ∀ k < cs.length, mem[off.toNat + k]? = cs[k]? := by
  constructor
  · intro ⟨before, after, hmem, hoff⟩
    subst hmem hoff
    refine ⟨by omega, ?_, ?_⟩
    · simp only [List.length_append]
      omega
    · intro k hk
      rw [Int.toNat_natCast, List.getElem?_append_right (by omega), Nat.add_sub_cancel_left,
        List.getElem?_append_left hk]
  · intro ⟨low, high, same⟩
    refine ⟨mem.take off.toNat, mem.drop (off.toNat + cs.length), ?_, ?_⟩
    · have hcs : cs = (mem.drop off.toNat).take cs.length := by
        apply List.ext_getElem?
        intro k
        rw [List.getElem?_take, List.getElem?_drop]
        split
        · next hk => exact (same k hk).symm
        · next hk => exact List.getElem?_eq_none (by omega)
      have htail := List.take_append_drop cs.length (mem.drop off.toNat)
      rw [← hcs, List.drop_drop] at htail
      rw [htail, List.take_append_drop]
    · rw [List.length_take]
      omega

/-- What was written is there. -/
theorem holds_write (low : 0 ≤ off) (high : off + bs.length ≤ mem.length) :
    Holds (write mem off bs) off bs := by
  refine holds_iff.mpr ⟨low, by rw [write_length low high]; exact high, fun k hk => ?_⟩
  rw [getElem?_write low high, if_pos (by omega), Nat.add_sub_cancel_left]

/-- What stands apart from a write stays. -/
theorem Holds.write_apart {off' : Int} (h : Holds mem off cs) (low : 0 ≤ off')
    (high : off' + bs.length ≤ mem.length)
    (apart : off + cs.length ≤ off' ∨ off' + bs.length ≤ off) :
    Holds (write mem off' bs) off cs := by
  obtain ⟨hlow, hhigh, same⟩ := holds_iff.mp h
  refine holds_iff.mpr ⟨hlow, by rw [write_length low high]; exact hhigh, fun k hk => ?_⟩
  rw [getElem?_write low high, if_neg (by omega)]
  exact same k hk

/-- Writes one after the other, each with its offset. -/
def writeAll (mem : List UInt8) (ws : List (Int × List UInt8)) : List UInt8 :=
  ws.foldl (fun mem w => write mem w.1 w.2) mem

/-- The write lies within so many bytes. -/
def Inside (n : Nat) (w : Int × List UInt8) : Prop := 0 ≤ w.1 ∧ w.1 + w.2.length ≤ n

def Apart (w w' : Int × List UInt8) : Prop :=
  w.1 + w.2.length ≤ w'.1 ∨ w'.1 + w'.2.length ≤ w.1

theorem writeAll_length {ws : List (Int × List UInt8)} (inside : ∀ w ∈ ws, Inside mem.length w) :
    (writeAll mem ws).length = mem.length := by
  induction ws generalizing mem with
  | nil => rfl
  | cons w ws ih =>
      have hw := inside w List.mem_cons_self
      have hlen := write_length hw.1 hw.2
      refine (ih fun w' hw' => ?_).trans hlen
      rw [hlen]
      exact inside w' (List.mem_cons_of_mem w hw')

theorem Holds.writeAll_apart {ws : List (Int × List UInt8)} (h : Holds mem off cs)
    (inside : ∀ w ∈ ws, Inside mem.length w) (apart : ∀ w ∈ ws, Apart (off, cs) w) :
    Holds (writeAll mem ws) off cs := by
  induction ws generalizing mem with
  | nil => exact h
  | cons w ws ih =>
      have hw := inside w List.mem_cons_self
      refine ih (h.write_apart hw.1 hw.2 (apart w List.mem_cons_self)) (fun w' hw' => ?_)
        fun w' hw' => apart w' (List.mem_cons_of_mem w hw')
      rw [write_length hw.1 hw.2]
      exact inside w' (List.mem_cons_of_mem w hw')

/-- Writes that do not overlap are all there afterwards. -/
theorem holds_writeAll {ws : List (Int × List UInt8)} (inside : ∀ w ∈ ws, Inside mem.length w)
    (apart : ws.Pairwise Apart) : ∀ w ∈ ws, Holds (writeAll mem ws) w.1 w.2 := by
  induction ws generalizing mem with
  | nil => exact fun w h => absurd h List.not_mem_nil
  | cons v ws ih =>
      obtain ⟨hv, hws⟩ := List.pairwise_cons.mp apart
      have hlow := inside v List.mem_cons_self
      have hrest : ∀ w ∈ ws, Inside (write mem v.1 v.2).length w := by
        intro w hw
        rw [write_length hlow.1 hlow.2]
        exact inside w (List.mem_cons_of_mem v hw)
      intro w hw
      cases List.mem_cons.mp hw with
      | inl heq =>
          subst heq
          exact (holds_write hlow.1 hlow.2).writeAll_apart hrest hv
      | inr hmem => exact ih hrest hws w hmem

end Holds

/-! ### Loops over records -/

section Records

variable {α : Type u} (read : List UInt8 → Int → Option α) (size : α → Int) (mem : List UInt8)

/-- Read so many records, each right after the one before it. -/
def readAll : Nat → Int → Option (List α)
  | 0, _ => some []
  | n + 1, off => (read mem off).bind fun x => (readAll n (off + size x)).map (x :: ·)

theorem readAll_of_holds {read : List UInt8 → Int → Option α} {size : α → Int}
    (bytes : α → List UInt8) (ok : α → Prop)
    (reads : ∀ mem off x, ok x → Holds mem off (bytes x) → read mem off = some x)
    (sizes : ∀ x, ok x → size x = (bytes x).length) {xs : List α} (oks : ∀ x ∈ xs, ok x)
    {mem : List UInt8} {off : Int} (holds : Holds mem off (xs.flatMap bytes)) :
    readAll read size mem xs.length off = some xs := by
  induction xs generalizing off with
  | nil => rfl
  | cons x xs ih =>
      have hx := oks x List.mem_cons_self
      rw [List.flatMap_cons] at holds
      have hrest := holds.right
      rw [← sizes x hx] at hrest
      simp only [readAll, List.length_cons, reads mem off x hx holds.left, Option.bind_some,
        ih (fun y hy => oks y (List.mem_cons_of_mem x hy)) hrest, Option.map_some]

/-- Every record was read somewhere. -/
theorem readAll_mem {read : List UInt8 → Int → Option α} {size : α → Int} {mem : List UInt8}
    {n : Nat} {off : Int} {xs : List α} (h : readAll read size mem n off = some xs) :
    ∀ x ∈ xs, ∃ off, read mem off = some x := by
  induction n generalizing off xs with
  | zero =>
      obtain rfl := Option.some.inj h
      exact fun _ hx => by cases hx
  | succ n ih =>
      obtain ⟨y, hy, hrest⟩ := Option.bind_eq_some_iff.mp h
      obtain ⟨ys, hys, rfl⟩ := Option.map_eq_some_iff.mp hrest
      intro x hx
      cases List.mem_cons.mp hx with
      | inl heq => exact ⟨off, heq ▸ hy⟩
      | inr hmem => exact ih hys x hmem

end Records

end Memory
