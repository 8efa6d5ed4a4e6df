import LibFastPaxos.Wire
import LibFastPaxos.Lib.Rows

/-!
Datagrams that spell packets. The counts and sizes of such a packet are those of its
bytes, so that it is read back from any receive buffer once its integers fit into theirs.
-/

namespace LibFastPaxos

open Memory

/-- All the integers of a message. -/
def PaxosData.fields : PaxosData → List Int
  | .prepare b => b.count :: b.data.flatMap PrepareMsg.fields
  | .accept m => m.fields
  | .lsync m => m.count :: m.ids
  | .promise b => b.acceptorId :: b.count :: b.data.flatMap PromiseMsg.fields
  | .learn m => m.fields
  | .anyval m => m.ballot :: m.count :: m.ids

/-- No integer of the message is cut off in its 32 bits. -/
def PaxosData.InRange (data : PaxosData) : Prop := ∀ x ∈ data.fields, FitsInt32 x

instance (data : PaxosData) : Decidable data.InRange :=
  inferInstanceAs (Decidable (∀ x ∈ data.fields, FitsInt32 x))

/-- Counts count the entries and sizes are those of values that a client may submit. -/
def PaxosData.Sized : PaxosData → Prop
  | .prepare b => b.count = b.data.length
  | .accept m => m.valueSize = m.value.length ∧ m.valueSize ≤ paxosMaxValueSize
  | .lsync m => m.count = m.ids.length
  | .promise b => b.count = b.data.length ∧
      ∀ p ∈ b.data, p.valueSize = p.value.length ∧ p.valueSize ≤ paxosMaxValueSize
  | .learn m => m.valueSize = m.value.length ∧ m.valueSize ≤ paxosMaxValueSize
  | .anyval m => m.count = m.ids.length

theorem PaxosData.fits_of_inRange {data : PaxosData} (range : data.InRange) (sized : data.Sized) :
    data.Fits := by
  cases data with
  | prepare b =>
      obtain ⟨hcount, hdata⟩ := List.forall_mem_cons.mp range
      exact ⟨hcount, sized, fun p hp x hx => hdata x (List.mem_flatMap.mpr ⟨p, hp, hx⟩)⟩
  | accept m => exact ⟨range, sized.1⟩
  | lsync m =>
      obtain ⟨hcount, hids⟩ := List.forall_mem_cons.mp range
      exact ⟨hcount, sized, hids⟩
  | promise b =>
      obtain ⟨hacceptor, hrest⟩ := List.forall_mem_cons.mp range
      obtain ⟨hcount, hdata⟩ := List.forall_mem_cons.mp hrest
      refine ⟨hacceptor, hcount, sized.1, fun p hp => ⟨fun x hx => ?_, (sized.2 p hp).1⟩⟩
      exact hdata x (List.mem_flatMap.mpr ⟨p, hp, hx⟩)
  | learn m => exact ⟨range, sized.1⟩
  | anyval m =>
      obtain ⟨hballot, hrest⟩ := List.forall_mem_cons.mp range
      obtain ⟨hcount, hids⟩ := List.forall_mem_cons.mp hrest
      exact ⟨hballot, hcount, sized, hids⟩

/-- The bytes of a datagram are those of the packet. -/
structure Spelled (bytes : Bytes) (packet : PaxosMsg) : Prop where
  bytes_eq : bytes = packet.bytes
  size_eq : packet.size = packet.data.bytes.length
  sized : packet.data.Sized
  room : sizeofPaxosMsg + packet.size ≤ maxUdpMsgSize

/-- The datagrams are the packets, one by one. -/
abbrev Spells (wire : List Bytes) (packets : List PaxosMsg) : Prop :=
  List.Forall₂ Spelled wire packets

section Spelled

variable {bytes : Bytes} {packet : PaxosMsg}

theorem Spelled.length_eq (h : Spelled bytes packet) :
    (bytes.length : Int) = sizeofPaxosMsg + packet.size := by
  have hsize := h.size_eq
  rw [h.bytes_eq, PaxosMsg.bytes, List.length_append, ints_length]
  simp only [List.length_cons, List.length_nil, sizeofPaxosMsg]
  omega

/-- What a network hands over. -/
def Spelled.datagram (h : Spelled bytes packet) : Datagram where
  bytes := bytes
  length_le := by
    rw [h.length_eq]
    exact h.room

theorem Spelled.encodes (h : Spelled bytes packet) (range : packet.data.InRange) {d : Datagram}
    (same : d.bytes = bytes) : d.Encodes packet where
  fits := PaxosData.fits_of_inRange range h.sized
  size_eq := by
    have hlen := h.length_eq
    rw [same]
    omega
  bytes := by
    have hbytes : d.bytes = packet.bytes := same.trans h.bytes_eq
    exact hbytes ▸ List.prefix_refl _

/-- A datagram spells one of the packets. -/
theorem Spells.spelled {wire : List Bytes} {packets : List PaxosMsg} (h : Spells wire packets)
    (mem : bytes ∈ wire) : ∃ packet ∈ packets, Spelled bytes packet := by
  induction h with
  | nil => cases mem
  | cons first _ ih =>
      cases List.mem_cons.mp mem with
      | inl heq => exact ⟨_, List.mem_cons_self, heq ▸ first⟩
      | inr hrest =>
          obtain ⟨packet, hpacket, hspelled⟩ := ih hrest
          exact ⟨packet, List.mem_cons_of_mem _ hpacket, hspelled⟩

theorem Spells.bytes_eq {wire : List Bytes} {packets : List PaxosMsg} (h : Spells wire packets) :
    wire = packets.map PaxosMsg.bytes := by
  induction h with
  | nil => rfl
  | cons first _ ih => rw [List.map_cons, ← ih, first.bytes_eq]

end Spelled

/-! ### Accepts -/

/-- The fields of an accept packet. -/
def AcceptMsg.row (m : AcceptMsg) : List Int :=
  [sizeofAcceptMsg + m.valueSize, paxosAccept, m.iid, m.ballot, m.valueSize, m.proposerId]

theorem accept_spelled {m : AcceptMsg} (sized : m.valueSize = m.value.length)
    (small : m.valueSize ≤ paxosMaxValueSize) :
    Spelled (ints m.row ++ m.value)
      { size := sizeofAcceptMsg + m.valueSize, data := .accept m } where
  bytes_eq := by
    rw [PaxosMsg.bytes, PaxosData.bytes, AcceptMsg.bytes, ← List.append_assoc, ← ints_append]
    rfl
  size_eq := by
    simp only [PaxosData.bytes, AcceptMsg.bytes, List.length_append, ints_length, sized]
    rfl
  sized := ⟨sized, small⟩
  room := by
    simp only [paxosMaxValueSize, sizeofPaxosMsg, sizeofAcceptMsg, maxUdpMsgSize] at small ⊢
    omega

/-- A buffer filled with an accept, as it is sent. -/
theorem accept_sent {b : Sender} {m : AcceptMsg} {packets : List PaxosMsg}
    (filled : b.Filled maxUdpMsgSize m.row m.value) (sent : Spells b.sent packets)
    (sized : m.valueSize = m.value.length) (small : m.valueSize ≤ paxosMaxValueSize) :
    Spells (b.send (sizeofPaxosMsg + (sizeofAcceptMsg + m.valueSize))).sent
      ({ size := sizeofAcceptMsg + m.valueSize, data := .accept m } :: packets) := by
  have hlen : sizeofPaxosMsg + (sizeofAcceptMsg + m.valueSize) =
      4 * (m.row.length : Int) + m.value.length := by
    simp only [AcceptMsg.row, List.length_cons, List.length_nil, sizeofPaxosMsg, sizeofAcceptMsg]
    omega
  rw [filled.sent hlen]
  exact .cons (accept_spelled sized small) sent

theorem AcceptMsg.size_fits {m : AcceptMsg} (sized : m.valueSize = m.value.length)
    (small : m.valueSize ≤ paxosMaxValueSize) : FitsInt32 (sizeofAcceptMsg + m.valueSize) := by
  simp only [paxosMaxValueSize] at small
  simp only [sizeofAcceptMsg]
  exact ⟨by omega, by omega⟩

end LibFastPaxos
