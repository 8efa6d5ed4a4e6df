import LibFastPaxos.Lib.Memory

/-!
Buffers that begin with a row of 32-bit fields and a tail of bytes. A message is built in
place: each field is set by itself, entries are counted in a field in front of them, and
the size that is sent is read back from the buffer.
-/

namespace Memory

def setInt (mem : List UInt8) (off x : Int) : List UInt8 := write mem off (ints [x])

/-- The buffer begins with these integers, then these bytes. -/
def Starts (mem : List UInt8) (xs : List Int) (tail : List UInt8) : Prop :=
  Holds mem 0 (ints xs ++ tail)

variable {mem tail : List UInt8} {xs ys : List Int} {off x : Int} {k n : Nat}

theorem ints_append (xs ys : List Int) : ints (xs ++ ys) = ints xs ++ ints ys :=
  List.flatMap_append

theorem ints_set (hk : k < xs.length) (x : Int) :
    ints (xs.set k x) = ints (xs.take k) ++ (ints [x] ++ ints (xs.drop (k + 1))) := by
  rw [List.set_eq_take_append_cons_drop, if_pos hk, ints_append]
  rfl

theorem ints_split (hk : k < xs.length) :
    ints xs = ints (xs.take k) ++ (ints [xs[k]] ++ ints (xs.drop (k + 1))) := by
  rw [← ints_set hk, List.set_getElem_self]

theorem ints_take_length (hk : k < xs.length) : ((ints (xs.take k)).length : Int) = 4 * k := by
  rw [ints_length, List.length_take, Nat.min_eq_left (Nat.le_of_lt hk)]
  omega

theorem setInt_length (low : 0 ≤ off) (high : off + 4 ≤ mem.length) :
    (setInt mem off x).length = mem.length :=
  write_length low high

theorem Starts.length (h : Starts mem xs tail) : 4 * xs.length + tail.length ≤ mem.length := by
  obtain ⟨-, hle, -⟩ := holds_iff.mp h
  rw [List.length_append, ints_length] at hle
  omega

/-- A field of the row is set. -/
theorem Starts.set (h : Starts mem xs tail) (hk : k < xs.length) (at_k : off = 4 * k) (x : Int) :
    Starts (setInt mem off x) (xs.set k x) tail := by
  have hold : Holds mem 0
      (ints (xs.take k) ++ (ints [xs[k]] ++ (ints (xs.drop (k + 1)) ++ tail))) := by
    rw [Starts, ints_split hk] at h
    simpa only [List.append_assoc] using h
  have hnew := hold.overwrite (ints [x]) rfl
  rw [ints_take_length hk, Int.zero_add, ← at_k] at hnew
  rw [Starts, ints_set hk, setInt]
  simpa only [List.append_assoc] using hnew

/-- The field behind the row is set. -/
theorem Starts.push (h : Starts mem xs []) (behind : off = 4 * xs.length)
    (room : off + 4 ≤ mem.length) (x : Int) : Starts (setInt mem off x) (xs ++ [x]) [] := by
  rw [Starts, List.append_nil] at h ⊢
  have hlen : ((ints xs).length : Int) = off := by
    rw [ints_length, behind]
    omega
  have hroom : (0 : Int) + (ints xs).length + (ints [x]).length ≤ mem.length := by
    rw [hlen, ints_length, List.length_singleton]
    omega
  have hnew := h.append_write hroom
  rw [hlen, Int.zero_add] at hnew
  rw [ints_append]
  exact hnew

/-- Bytes are copied behind the row. -/
theorem Starts.copy (h : Starts mem xs []) (behind : off = 4 * xs.length)
    (room : off + tail.length ≤ mem.length) : Starts (write mem off tail) xs tail := by
  rw [Starts, List.append_nil] at h
  have hlen : ((ints xs).length : Int) = off := by
    rw [ints_length, behind]
    omega
  have hroom : (0 : Int) + (ints xs).length + tail.length ≤ mem.length := by
    rw [hlen]
    omega
  have hnew := h.append_write hroom
  rwa [hlen, Int.zero_add] at hnew

theorem Starts.intAt (h : Starts mem xs tail) (at_k : off = 4 * k) (hx : xs[k]? = some x)
    (fits : FitsInt32 x) : Memory.intAt mem off = some x := by
  obtain ⟨hk, hval⟩ := List.getElem?_eq_some_iff.mp hx
  have hold : Holds mem 0 (ints (xs.take k) ++ (ints [x] ++ ints (xs.drop (k + 1)))) := by
    rw [← hval, ← ints_split hk]
    exact h.left
  have hread := hold.right.left.intAt (by simpa using fits) 0 rfl
  rw [ints_take_length hk] at hread
  rw [at_k]
  simpa using hread

/-- The bytes as they are sent. -/
theorem Starts.bytesAt (h : Starts mem xs tail) (len : n = 4 * xs.length + tail.length) :
    Memory.bytesAt mem 0 n = ints xs ++ tail := by
  have hbytes := Holds.bytesAt h
  rw [List.length_append, ints_length, ← len] at hbytes
  exact hbytes

/-- Four bytes are some integer. -/
theorem le32_of_bytes (b₀ b₁ b₂ b₃ : UInt8) : ∃ x, le32 x = [b₀, b₁, b₂, b₃] := by
  refine ⟨((b₀.toNat + 256 * b₁.toNat + 65536 * b₂.toNat + 16777216 * b₃.toNat : Nat) : Int), ?_⟩
  have h₀ := b₀.toNat_lt
  have h₁ := b₁.toNat_lt
  have h₂ := b₂.toNat_lt
  have h₃ := b₃.toNat_lt
  have hmod : (((b₀.toNat + 256 * b₁.toNat + 65536 * b₂.toNat + 16777216 * b₃.toNat : Nat) : Int) %
      2 ^ 32).toNat = b₀.toNat + 256 * b₁.toNat + 65536 * b₂.toNat + 16777216 * b₃.toNat := by
    omega
  have hbyte : ∀ (m : Nat) (b : UInt8), m % 256 = b.toNat → UInt8.ofNat m = b := by
    intro m b hm
    rw [← UInt8.toNat_inj, UInt8.toNat_ofNat']
    exact hm
  simp only [le32]
  rw [hmod, hbyte _ b₀ (by omega), hbyte _ b₁ (by omega), hbyte _ b₂ (by omega),
    hbyte _ b₃ (by omega)]

/-- Any bytes are a row, as far as they go. -/
theorem exists_starts (n : Nat) (room : 4 * n ≤ mem.length) :
    ∃ xs, xs.length = n ∧ Starts mem xs [] := by
  induction n with
  | zero => exact ⟨[], rfl, .nil (Int.le_refl 0) (by omega)⟩
  | succ n ih =>
      obtain ⟨xs, hlen, hstarts⟩ := ih (by omega)
      rw [Starts, List.append_nil] at hstarts
      obtain ⟨bs, hbs, hext⟩ := hstarts.extend (n := 4) (by
        rw [ints_length]
        omega)
      match bs, hbs with
      | [b₀, b₁, b₂, b₃], _ =>
          obtain ⟨x, hx⟩ := le32_of_bytes b₀ b₁ b₂ b₃
          refine ⟨xs ++ [x], by simp [hlen], ?_⟩
          have hrow : ints [x] = [b₀, b₁, b₂, b₃] := by
            rw [ints, List.flatMap_singleton, hx]
          rw [Starts, ints_append, hrow, List.append_nil]
          exact hext

/-- What stands in front of some bytes is a row as well. -/
theorem Starts.of_holds {bs : List UInt8} (n : Nat) (h : Holds mem (4 * n) bs) :
    ∃ xs, xs.length = n ∧ Starts mem xs bs := by
  obtain ⟨-, hroom, -⟩ := holds_iff.mp h
  obtain ⟨xs, hlen, hxs⟩ := exists_starts n (show 4 * n ≤ mem.length by omega)
  rw [Starts, List.append_nil] at hxs
  refine ⟨xs, hlen, hxs.append ?_⟩
  have hoff : (0 : Int) + (ints xs).length = 4 * n := by
    rw [ints_length, hlen]
    omega
  exact hoff ▸ h

/-! ### Buffers that are sent -/

/-- A buffer and the datagrams sent from it, newest first. -/
structure Sender where
  bytes : List UInt8
  sent : List (List UInt8)

namespace Sender

/-- An `int` of the buffer. -/
def get (b : Sender) (off : Int) : Int := (Memory.intAt b.bytes off).getD 0

def set (b : Sender) (off x : Int) : Sender := { b with bytes := setInt b.bytes off x }

/-- `memcpy` into the buffer. -/
def copy (b : Sender) (off : Int) (bs : List UInt8) : Sender :=
  { b with bytes := write b.bytes off bs }

/-- Send so many bytes from the start. -/
def send (b : Sender) (n : Int) : Sender := { b with sent := Memory.bytesAt b.bytes 0 n :: b.sent }

/-- The buffer has `n` bytes and begins with these integers, then these bytes. -/
structure Filled (b : Sender) (n : Int) (xs : List Int) (tail : List UInt8) : Prop where
  length : (b.bytes.length : Int) = n
  starts : Starts b.bytes xs tail

section Filled

variable {b : Sender} {size : Int}

theorem Filled.fits (h : b.Filled size xs tail) :
    4 * (xs.length : Int) + tail.length ≤ size := by
  have hle := h.starts.length
  have hlen := h.length
  omega

theorem Filled.set (h : b.Filled size xs tail) (hk : k < xs.length) (at_k : off = 4 * k)
    (x : Int) : (b.set off x).Filled size (xs.set k x) tail := by
  have hle := h.starts.length
  refine ⟨?_, h.starts.set hk at_k x⟩
  rw [← h.length, Sender.set, setInt_length (by omega) (by omega)]

theorem Filled.push (h : b.Filled size xs []) (behind : off = 4 * xs.length)
    (room : off + 4 ≤ size) (x : Int) : (b.set off x).Filled size (xs ++ [x]) [] := by
  have hlen := h.length
  refine ⟨?_, h.starts.push behind (by omega) x⟩
  rw [← h.length, Sender.set, setInt_length (by omega) (by omega)]

theorem Filled.copy (h : b.Filled size xs []) (behind : off = 4 * xs.length)
    (room : off + tail.length ≤ size) : (b.copy off tail).Filled size xs tail := by
  have hlen := h.length
  refine ⟨?_, h.starts.copy behind (by omega)⟩
  rw [← h.length, Sender.copy, write_length (by omega) (by omega)]

theorem Filled.get (h : b.Filled size xs tail) (at_k : off = 4 * k) (hx : xs[k]? = some x)
    (fits : FitsInt32 x) : b.get off = x := by
  rw [Sender.get, h.starts.intAt at_k hx fits]
  rfl

/-- A field is raised in place. -/
theorem Filled.raise (h : b.Filled size xs tail) (at_k : off = 4 * k) (hx : xs[k]? = some x)
    (fits : FitsInt32 x) (by_n : Int) :
    (b.set off (b.get off + by_n)).Filled size (xs.set k (x + by_n)) tail := by
  rw [h.get at_k hx fits]
  exact h.set (List.getElem?_eq_some_iff.mp hx).choose at_k (x + by_n)

theorem Filled.sent (h : b.Filled size xs tail) {len : Int}
    (len_eq : len = 4 * (xs.length : Int) + tail.length) :
    (b.send len).sent = (ints xs ++ tail) :: b.sent := by
  have hnat : len = ((4 * xs.length + tail.length : Nat) : Int) := by omega
  rw [send, hnat, h.starts.bytesAt rfl]

/-- The first fields by themselves. -/
theorem Filled.front (h : b.Filled size (xs ++ ys) []) : b.Filled size xs [] := by
  refine ⟨h.length, ?_⟩
  have hstarts := h.starts
  rw [Starts, List.append_nil, ints_append] at hstarts
  rw [Starts, List.append_nil]
  exact hstarts.left

/-- What was sent stays in the buffer. -/
theorem Filled.send (h : b.Filled size xs tail) (len : Int) :
    (b.send len).Filled size xs tail :=
  ⟨h.length, h.starts⟩

/-- The buffer has `n` bytes and holds these at an offset. -/
structure Holding (b : Sender) (n off : Int) (bs : List UInt8) : Prop where
  length : (b.bytes.length : Int) = n
  holds : Holds b.bytes off bs

theorem Holding.off_nonneg {bs : List UInt8} (h : b.Holding size off bs) : 0 ≤ off :=
  (holds_iff.mp h.holds).1

/-- What stands behind the first `k` fields. -/
theorem Filled.behind (h : b.Filled size xs tail) (k : Nat) (hk : k ≤ xs.length)
    (at_k : off = 4 * k) : b.Holding size off (ints (xs.drop k) ++ tail) := by
  refine ⟨h.length, ?_⟩
  have hstarts := h.starts
  rw [Starts, ← List.take_append_drop k xs, ints_append, List.append_assoc] at hstarts
  have hlen : (0 : Int) + (ints (xs.take k)).length = off := by
    rw [ints_length, List.length_take_of_le hk, at_k]
    omega
  exact hlen ▸ hstarts.right

theorem Holding.filled {bs : List UInt8} (h : b.Holding size (4 * k) bs) :
    ∃ xs, xs.length = k ∧ b.Filled size xs bs := by
  obtain ⟨xs, hlen, hxs⟩ := Starts.of_holds k h.holds
  exact ⟨xs, hlen, h.length, hxs⟩

/-- Bytes are copied behind those that are there. -/
theorem Holding.copy {bs : List UInt8} (h : b.Holding size off bs) (behind : Int)
    (at_end : behind = off + bs.length) (room : behind + tail.length ≤ size) :
    (b.copy behind tail).Holding size off (bs ++ tail) := by
  have hlen := h.length
  have hoff := h.off_nonneg
  subst at_end
  refine ⟨?_, h.holds.append_write (by omega)⟩
  rw [← hlen, Sender.copy, write_length (by omega) (by omega)]

/-- A field is set behind them. -/
theorem Holding.set {bs : List UInt8} (h : b.Holding size off bs) (behind : Int)
    (at_end : behind = off + bs.length) (room : behind + 4 ≤ size) (x : Int) :
    (b.set behind x).Holding size off (bs ++ ints [x]) :=
  h.copy behind at_end room

/-- A field among them is set. -/
theorem Holding.replace {bs cs : List UInt8} {y at_field : Int}
    (h : b.Holding size off (bs ++ (ints [y] ++ cs))) (at_eq : at_field = off + bs.length)
    (x : Int) : (b.set at_field x).Holding size off (bs ++ (ints [x] ++ cs)) := by
  have hlen := h.length
  have hinside := (holds_iff.mp h.holds).2.1
  have hoff := h.off_nonneg
  simp only [List.length_append, ints_length, List.length_singleton] at hinside
  subst at_eq
  refine ⟨?_, h.holds.overwrite (ints [x]) rfl⟩
  rw [← hlen, Sender.set, setInt_length (by omega) (by omega)]

theorem exists_filled (k : Nat) (length : (b.bytes.length : Int) = size)
    (room : 4 * (k : Int) ≤ size) : ∃ xs, xs.length = k ∧ b.Filled size xs [] := by
  obtain ⟨xs, hlen, hxs⟩ := exists_starts k (show 4 * k ≤ b.bytes.length by omega)
  exact ⟨xs, hlen, length, hxs⟩

end Filled
end Sender
end Memory
