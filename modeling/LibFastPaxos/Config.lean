import Mathlib.Data.Int.Bitwise

/-!
Build parameters of config.h and libpaxos.h and the macros computed from them.
The ring sizes carry the power-of-two requirement that config.h states next to
each of them, and ballot arithmetic is that of a 32-bit `int`.
-/

namespace LibFastPaxos

abbrev Bytes := List UInt8

/-- `memcpy` of `n` bytes out of a buffer. -/
def memcpy (src : Bytes) (n : Int) : Bytes := src.take n.toNat

theorem memcpy_length (src : Bytes) : memcpy src src.length = src := by
  simp [memcpy]

theorem memcpy_of_length {v : Bytes} {n : Int} (h : n = v.length) : memcpy v n = v := by
  rw [h, memcpy_length]

/-- A buffer of `n` bytes is copied whole. -/
@[simp] theorem memcpy_memcpy (src : Bytes) (n : Int) : memcpy (memcpy src n) n = memcpy src n := by
  simp [memcpy, List.take_take]

theorem memcpy_zero (src : Bytes) : memcpy src 0 = [] := by
  simp [memcpy]

def wrapInt32 (x : Int) : Int := Int.bmod x (2 ^ 32)

theorem wrapInt32_of_fits {x : Int} (low : -2147483648 ≤ x) (high : x ≤ 2147483647) :
    wrapInt32 x = x := by
  unfold wrapInt32
  apply Int.bmod_eq_of_le <;> omega

/-- Size of one of the rings; masking an instance id with `size - 1` picks its slot. -/
structure RingSize where
  size : Nat
  powerOfTwo : ∃ k, size = 2 ^ k

namespace RingSize

/-- `GET_ACC_INDEX`, `GET_LEA_INDEX` and `GET_PRO_INDEX`. -/
def index (r : RingSize) (n : Int) : Nat := (Int.land n ((r.size : Int) - 1)).toNat

theorem size_pos (r : RingSize) : 0 < r.size := by
  obtain ⟨k, hk⟩ := r.powerOfTwo
  rw [hk]
  exact Nat.two_pow_pos k

theorem index_of_nonneg (r : RingSize) {n : Int} (h : 0 ≤ n) :
    r.index n = n.toNat % r.size := by
  obtain ⟨m, rfl⟩ := Int.eq_ofNat_of_zero_le h
  obtain ⟨k, hk⟩ := r.powerOfTwo
  have hmask : (r.size : Int) - 1 = ((2 ^ k - 1 : Nat) : Int) := by
    have := Nat.two_pow_pos k
    omega
  rw [index, hmask, hk]
  change (Int.land (Int.ofNat m) (Int.ofNat (2 ^ k - 1))).toNat = _
  simp only [Int.land, Int.toNat_natCast]
  exact Nat.and_two_pow_sub_one_eq_mod m k

theorem index_sub_size (r : RingSize) {n : Int} (h : 0 ≤ n - r.size) :
    r.index (n - r.size) = r.index n := by
  rw [r.index_of_nonneg h, r.index_of_nonneg (by omega)]
  have hn : n.toNat = (n - r.size).toNat + r.size := by omega
  rw [hn, Nat.add_mod_right]

theorem index_lt (r : RingSize) {n : Int} (h : 0 ≤ n) : r.index n < r.size := by
  rw [r.index_of_nonneg h]
  exact Nat.mod_lt _ r.size_pos

/-- Ids of one slot differ by multiples of the ring size. -/
theorem eq_of_index_eq (r : RingSize) {m n : Int} (hm : 0 ≤ m) (hn : 0 ≤ n)
    (same : r.index m = r.index n) (near : m < n + r.size) (near' : n < m + r.size) :
    m = n := by
  rw [r.index_of_nonneg hm, r.index_of_nonneg hn] at same
  have hd := Nat.div_add_mod m.toNat r.size
  have hd' := Nat.div_add_mod n.toNat r.size
  have hpos := r.size_pos
  rcases Nat.lt_trichotomy (m.toNat / r.size) (n.toNat / r.size) with h | h | h
  · have := Nat.mul_le_mul_left r.size h
    rw [Nat.mul_succ] at this
    omega
  · rw [h] at hd
    omega
  · have := Nat.mul_le_mul_left r.size h
    rw [Nat.mul_succ] at this
    omega

end RingSize

structure Config where
  nOfAcceptors : Nat
  maxProposers : Int
  paxosAcceptorForceDiskFlush : Bool
  proposerPreexecWinSize : Int
  acceptorArraySize : RingSize
  learnerArraySize : RingSize
  proposerArraySize : RingSize
  nOfAcceptors_pos : 0 < nOfAcceptors
  maxProposers_pos : 0 < maxProposers
  maxProposers_fits : 3 * maxProposers ≤ 2147483647

def maxUdpMsgSize : Int := 9000

def paxosMaxValueSize : Int := 8960

namespace Config

variable (cfg : Config)

/-- `1 + (int)((double)(N_OF_ACCEPTORS*2)/3)`, the same in learner and leader. -/
def quorum : Int := 1 + (cfg.nOfAcceptors : Int) * 2 / 3

/-- `min_ballot`, the lowest ballot a leader uses. -/
def minBallot : Int := 2 * cfg.maxProposers

def firstBallot (proposerId : Int) : Int := 2 * cfg.maxProposers + proposerId

def ballotNext (lastBal : Int) : Int := wrapInt32 (lastBal + cfg.maxProposers)

/-- C's `%` truncates towards zero. -/
def valueOwner (bal : Int) : Int := bal.tmod cfg.maxProposers

theorem quorum_pos : 0 < cfg.quorum := by
  simp only [quorum]
  omega

/-- Up to three acceptors a quorum is all of them. -/
theorem quorum_eq_nOfAcceptors_iff :
    cfg.quorum = cfg.nOfAcceptors ↔ cfg.nOfAcceptors ≤ 3 := by
  have := cfg.nOfAcceptors_pos
  simp only [quorum]
  omega

theorem two_quorums_meet : (cfg.nOfAcceptors : Int) < 2 * cfg.quorum := by
  simp only [quorum]
  omega

theorem ballotNext_of_fits {lastBal : Int} (low : 0 ≤ lastBal)
    (high : lastBal + cfg.maxProposers ≤ 2147483647) :
    cfg.ballotNext lastBal = lastBal + cfg.maxProposers := by
  have := cfg.maxProposers_pos
  exact wrapInt32_of_fits (by omega) high

/-- The parameters of config.h. -/
def shipped : Config where
  nOfAcceptors := 3
  maxProposers := 10
  paxosAcceptorForceDiskFlush := false
  proposerPreexecWinSize := 50
  acceptorArraySize := ⟨1024, 10, rfl⟩
  learnerArraySize := ⟨512, 9, rfl⟩
  proposerArraySize := ⟨512, 9, rfl⟩
  nOfAcceptors_pos := by decide
  maxProposers_pos := by decide
  maxProposers_fits := by decide

end Config
end LibFastPaxos
