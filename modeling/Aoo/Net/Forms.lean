import Aoo.Net.System

/-!
# The OSC and the binary form of a peer message

`send_message` and the loop of `do_send` that sends frames again hand their packets either to
`send_packet_osc` or to `send_packet_bin`, as the client is set at that moment. So the same
packet may travel in both forms, and the receiver should not be able to tell them apart.

It can where a packet has no content. The OSC parser reads the payload with
`osc_read_metadata`, which takes an empty blob for an error; the binary parser accepts it, but makes
one frame out of the zero frames of an empty message. An empty message has such a packet, and so
has a message whose size is a multiple of the frame size: its last frame is cut
as the remainder of the division. Apart from that a packet must only fit the
buffers of both senders; a frame cut for the binary form may be too long for OSC.

**Main result** (`same_meaning_iff`): for all packets of all messages.
-/

namespace Aoo.Net

open Lib

/-! ## What a source of packets emits -/

/-- A packet of `send_message` or of the loop that sends frames again, with a sequence number
that fits its type. -/
inductive Emitted (packet : MessagePacket) : Prop where
  | sent (m : Message) (q : Nat) (hq : q < 2147483648) (packetSize : PacketSize) (binary : Bool)
      (h : packet ∈ messagePackets m q (maxsize packetSize binary))
  | resent (m : Message) (q : Nat) (hq : q < 2147483648) (packetSize : PacketSize) (binary : Bool)
      (frames : Finset Nat)
      (h : packet ∈ resendPackets { sentMessage m q (maxsize packetSize binary) with frames })

/-- What a parser has read is the packet, with its reliability. -/
def Reads (packet : MessagePacket) (r : Option (MessagePacket × Nat)) : Prop :=
  r.map (fun x => (x.1, hasBit x.2 kAooMessageReliable)) = some (packet, packet.reliable)

/-- Both forms of the packet give it back. -/
def SameMeaning (groupId localId : Int) (packet : MessagePacket) : Prop :=
  Reads packet ((sendPacketOsc groupId localId packet).bind messageOf) ∧
    Reads packet ((sendPacketBin groupId localId packet).bind messageOf)

instance (packet : MessagePacket) (r : Option (MessagePacket × Nat)) : Decidable (Reads packet r) :=
  inferInstanceAs (Decidable (_ = _))

instance (groupId localId : Int) (packet : MessagePacket) :
    Decidable (SameMeaning groupId localId packet) :=
  inferInstanceAs (Decidable (_ ∧ _))

variable {packet : MessagePacket} {groupId localId : Int}

/-! ## One form at a time -/

/-- A packet with the frame section, or with the values that stand for it, is received as it
was sent. -/
theorem received_eq_self_iff :
    packet.received = packet ↔
      packet.numFrames > 1 ∨ packet.numFrames = 1 ∧ packet.frameIndex = 0 := by
  rw [MessagePacket.received]
  split
  next h => exact iff_of_true rfl (Or.inl h)
  next h =>
    obtain ⟨type, data, tt, sequence, totalSize, numFrames, frameIndex, reliable⟩ := packet
    rw [MessagePacket.mk.injEq]
    constructor
    · rintro ⟨_, _, _, _, _, hnum, hindex, _⟩
      exact Or.inr ⟨hnum.symm, hindex.symm⟩
    · intro hor
      obtain ⟨hnum, hindex⟩ := hor.resolve_left h
      exact ⟨rfl, rfl, rfl, rfl, rfl, hnum.symm, hindex.symm, rfl⟩

/-- **The OSC form** gives a packet back if it fits and has content. -/
theorem reads_osc_iff :
    Reads packet ((sendPacketOsc groupId localId packet).bind messageOf) ↔
      packet.data ≠ [] ∧ packet.received = packet ∧
        messageSize false groupId localId packet.numFrames packet.tt packet.data.length ≤
          4096 := by
  have hrel : hasBit (if packet.reliable then kAooMessageReliable else 0) kAooMessageReliable =
      packet.reliable := by
    cases packet.reliable <;> rfl
  rw [sendPacketOsc_eq]
  split
  next hfit =>
    rw [Option.bind_some]
    simp only [messageOf, if_true, List.drop_succ_cons, List.drop_zero]
    rw [parseMessageOsc_args]
    by_cases hdata : packet.data = []
    · rw [if_pos hdata]
      refine iff_of_false ?_ fun h => h.1 hdata
      rintro ⟨⟩
    · rw [if_neg hdata, Reads, Option.map_some, hrel, Option.some_inj]
      constructor
      · intro h
        exact ⟨hdata, congrArg Prod.fst h, hfit⟩
      · intro h
        rw [h.2.1]
  next hfit =>
    refine iff_of_false ?_ fun h => hfit h.2.2
    rintro ⟨⟩

/-- **The binary form** gives a packet back if it fits. -/
theorem reads_bin_iff (hwire : packet.Wire) :
    Reads packet ((sendPacketBin groupId localId packet).bind messageOf) ↔
      packet.received = packet ∧
        messageSize true groupId localId packet.numFrames packet.tt packet.data.length ≤
          4096 := by
  rw [← sendPacketBin_isSome_iff]
  cases hsend : sendPacketBin groupId localId packet with
  | none => exact iff_of_false nofun fun h => by cases h.2.choose_spec
  | some d =>
    obtain ⟨data, rfl, hcmd, hparse⟩ := messageOf_sendPacketBin hwire hsend
    rw [Option.bind_some, messageOf, if_pos hcmd, hparse]
    simp only [Except.toOption, Option.join_some]
    rw [Reads, Option.map_some, hasBit_binFlags, Option.some_inj]
    constructor
    · intro h
      exact ⟨congrArg Prod.fst h, _, rfl⟩
    · intro h
      rw [h.1]

theorem signed_int32_lt (n : Nat) : signed 4294967296 n < 2147483648 := by
  rw [signed, Int.bmod_def]
  split <;> omega

/-- A total size that is read is an `int32_t`. -/
theorem parseMessageBin_total {bs : List UInt8} {flags : Nat}
    (h : parseMessageBin bs = .ok (some (packet, flags))) : packet.totalSize < 2147483648 := by
  have hint : ∀ bs, int32Field bs < 2147483648 := fun bs => signed_int32_lt _
  have hsize : (field 2 ((bs.drop 4).drop 2) : Int) < 2147483648 := by
    have := field_lt 2 ((bs.drop 4).drop 2)
    omega
  unfold parseMessageBin at h
  simp only [] at h
  -- with and without the frame section, from which the total size is read
  cases hframes : hasBit (field 2 (bs.drop 4)) kAooBinMsgMessageFrames with
  | true =>
    simp only [hframes, if_true] at h
    split_ifs at h <;>
      simp only [Except.ok.injEq, Option.some.injEq, Prod.mk.injEq, reduceCtorEq] at h
    all_goals
      rw [← h.1]
      dsimp only
      exact hint _
  | false =>
    simp only [hframes, Bool.false_and, Bool.false_eq_true, if_false] at h
    split_ifs at h <;>
      simp only [Except.ok.injEq, Option.some.injEq, Prod.mk.injEq, reduceCtorEq] at h
    all_goals
      rw [← h.1]
      exact hsize

theorem messageOf_bin_total {d : Datagram} {x : MessagePacket × Nat}
    (hd : sendPacketBin groupId localId packet = some d) (h : messageOf d = some x) :
    x.1.totalSize < 2147483648 := by
  rw [sendPacketBin] at hd
  split at hd
  next =>
    cases hd
    rw [messageOf] at h
    split at h
    next =>
      cases hparse : parseMessageBin _ with
      | error e =>
        rw [hparse] at h
        cases h
      | ok r =>
        rw [hparse] at h
        cases r with
        | none => cases h
        | some y =>
          cases h
          exact parseMessageBin_total hparse
    next => cases h
  next => cases hd

/-! ## The packets of a message -/

/-- What every emitted packet has in common. -/
structure Cut (packet : MessagePacket) : Prop where
  type : -2147483648 ≤ packet.type ∧ packet.type < 2147483648
  tt : packet.tt < 18446744073709551616
  sequence : 0 ≤ packet.sequence ∧ packet.sequence < 2147483648
  total : 0 ≤ packet.totalSize
  num : 0 ≤ packet.numFrames ∧ packet.numFrames ≤ packet.totalSize
  index : 0 ≤ packet.frameIndex ∧ packet.frameIndex < max 1 packet.numFrames
  single : packet.numFrames ≤ 1 → packet.totalSize = packet.data.length
  content : packet.data ≠ [] → 1 ≤ packet.numFrames

theorem numFrames_le {size ms : Nat} (hpos : 0 < ms) : numFrames size ms ≤ size := by
  unfold numFrames
  have hdiv := Nat.div_add_mod size ms
  have hle : size / ms ≤ ms * (size / ms) := Nat.le_mul_of_pos_left _ hpos
  split <;> omega

theorem FrameOf.cut {m : Message} {ms q i o l : Nat} (h : FrameOf m ms q i o l packet)
    (hpos : 0 < ms) (hq : q < 2147483648) : Cut packet := by
  have hlt := h.index_lt
  have hnum := @numFrames_le m.data.data.length _ hpos
  have hwire : wireFrames m.data.data.length ms = max 1 (numFrames m.data.data.length ms) := rfl
  refine ⟨?_, ?_, ?_, ?_, ?_, ?_, ?_, ?_⟩
  · rw [h.type]
    exact ⟨m.data.type_ge, m.data.type_lt⟩
  · rw [h.tt]
    exact m.tt_lt
  · rw [h.seq]
    omega
  · rw [h.total]
    omega
  · rw [h.num, h.total]
    omega
  · rw [h.index, h.num]
    omega
  · intro hsingle
    rw [h.num] at hsingle
    have h₀ := h.single (by omega)
    have hlast := h.last (by omega)
    rw [h.total, h.data_length]
    omega
  · intro hdata
    have hinside := h.inside
    have hlength := h.data_length
    have hl : l ≠ 0 := by
      intro h₀
      rw [h₀] at hlength
      exact hdata (List.eq_nil_of_length_eq_zero hlength)
    have hsize := @size_le_numFrames m.data.data.length _ hpos
    rw [h.num]
    have hframes : numFrames m.data.data.length ms ≠ 0 := by
      intro h₀
      rw [h₀] at hsize
      omega
    omega

/-- Whatever is emitted is a frame of a message. -/
theorem Emitted.cut (h : Emitted packet) : Cut packet := by
  cases h with
  | sent m q hq packetSize binary h =>
    have hpos := maxsize_pos packetSize binary
    rw [messagePackets] at h
    split at h
    next hmany =>
      obtain ⟨i, hi, rfl⟩ := List.mem_map.mp h
      have hlt := List.mem_range.mp hi
      exact (messagePacket_frameOf m q (by unfold wireFrames; omega)).cut hpos hq
    next =>
      rw [List.mem_singleton.mp h]
      exact (messagePacket_frameOf m q (by unfold wireFrames; omega)).cut hpos hq
  | resent m q hq packetSize binary frames h =>
    obtain ⟨i, hi, rfl⟩ := List.mem_map.mp h
    have hlt := List.mem_range.mp (List.mem_filter.mp hi).1
    exact (resendPacket_frameOf q hlt).cut (maxsize_pos packetSize binary) hq

theorem Cut.wire (h : Cut packet) (htotal : packet.totalSize < 2147483648) : packet.Wire := by
  have hnum := h.num
  have hindex := h.index
  have hsequence := h.sequence
  have hnonneg := h.total
  exact ⟨h.type, h.tt, by omega, by omega, by omega, by omega, h.single⟩

/-- With content the frame count is not changed on the way. -/
theorem Cut.received_eq (h : Cut packet) (hdata : packet.data ≠ []) :
    packet.received = packet := by
  have hnum := h.content hdata
  have hindex := h.index
  rw [received_eq_self_iff]
  omega

/-- **OSC and binary form mean the same** if and only if the packet has content, the message
size is an `int32_t`, and both forms fit the buffers of their senders. -/
theorem same_meaning_iff :
    ∀ (packet : MessagePacket), Emitted packet → ∀ (groupId localId : Int),
      SameMeaning groupId localId packet ↔
        packet.data ≠ [] ∧ packet.totalSize < 2147483648 ∧
          ∀ binary, messageSize binary groupId localId packet.numFrames packet.tt
            packet.data.length ≤ AOO_MAX_PACKET_SIZE := by
  intro packet hemitted groupId localId
  have hcut := hemitted.cut
  have hmax : AOO_MAX_PACKET_SIZE = 4096 := rfl
  rw [SameMeaning, reads_osc_iff, hmax]
  constructor
  · intro ⟨⟨hdata, hreceived, hosc⟩, hbin⟩
    have htotal : packet.totalSize < 2147483648 := by
      -- the total size comes out of the binary parser
      cases hread : (sendPacketBin groupId localId packet).bind messageOf with
      | none =>
        rw [hread] at hbin
        cases hbin
      | some x =>
        rw [hread, Reads, Option.map_some, Option.some_inj] at hbin
        obtain ⟨d, hd, hmessage⟩ := Option.bind_eq_some_iff.mp hread
        have htotal := messageOf_bin_total hd hmessage
        rwa [show x.1 = packet from congrArg Prod.fst hbin] at htotal
    have hbin' := (reads_bin_iff (hcut.wire htotal)).mp hbin
    refine ⟨hdata, htotal, fun binary => ?_⟩
    cases binary with
    | false => exact hosc
    | true => exact hbin'.2
  · intro ⟨hdata, htotal, hfit⟩
    have hreceived := hcut.received_eq hdata
    exact ⟨⟨hdata, hreceived, hfit false⟩,
      (reads_bin_iff (hcut.wire htotal)).mpr ⟨hreceived, hfit true⟩⟩

/-- The packet of a short message with the time tag 1. -/
def shortPacket (data : List UInt8) : MessagePacket :=
  messagePacket (timedMessage data) 0 (maxsize ⟨1024, by decide, by decide⟩ true) 0

theorem emitted_shortPacket (data : List UInt8)
    (h : ¬ numFrames data.length (maxsize ⟨1024, by decide, by decide⟩ true) > 1) :
    Emitted (shortPacket data) := by
  refine .sent (timedMessage data) 0 (by decide) ⟨1024, by decide, by decide⟩ true ?_
  rw [messagePackets, if_neg (show ¬ numFrames (timedMessage data).data.data.length _ > 1 from h)]
  exact List.mem_singleton_self _

/-- Three bytes mean the same in both forms. -/
theorem three_bytes_same : SameMeaning 1 2 (shortPacket [1, 2, 3]) :=
  (same_meaning_iff (shortPacket [1, 2, 3]) (emitted_shortPacket [1, 2, 3] (by decide)) 1 2).mpr
    (by decide)

/-- An empty message does not: the OSC parser rejects it, the binary parser sees one
frame instead of none. -/
theorem empty_message_differs :
    Emitted (shortPacket []) ∧ ¬ SameMeaning 1 2 (shortPacket []) ∧
      (sendPacketOsc 1 2 (shortPacket [])).bind messageOf = none ∧
      (sendPacketBin 1 2 (shortPacket [])).bind messageOf =
        some ({ shortPacket [] with numFrames := 1 }, kAooBinMsgMessageTimestamp) :=
  ⟨emitted_shortPacket [] (by decide), by decide, by decide, by decide⟩

end Aoo.Net
