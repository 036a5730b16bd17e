import Aoo.Net.MessageBuffer

/-!
# Peer message packets on the wire

The two encodings of a `message_packet` and of an acknowledgement in
`peer.cpp`, and the parsers of the receiving side.

A packet that needs no frame section travels without one, and the receiver
fills in the defaults; `MessagePacket.received` is what it then sees.
`parseMessageBin_bytes` and `parseMessageOsc_args` say that both parsers undo
their encoder up to these defaults.
-/

namespace Aoo.Net

open Lib

def kAooMessageReliable : Nat := 1

def kAooBinMsgCmdMessage : Nat := 0
def kAooBinMsgCmdAck : Nat := 1

def kAooBinMsgMessageReliable : Nat := 1
def kAooBinMsgMessageFrames : Nat := 2
def kAooBinMsgMessageTimestamp : Nat := 4

/-- `kMessageHeaderSize`: OSC address and arguments. -/
def kMessageHeaderSize : Nat := 86

/-- `kBinMessageHeaderSize` -/
def kBinMessageHeaderSize : Nat := kAooBinMsgLargeHeaderSize + 28

/-- `message_packet`; `size` is the length of `data`. -/
structure MessagePacket where
  type : Int
  data : List UInt8
  tt : Nat
  sequence : Int
  totalSize : Int
  numFrames : Int
  frameIndex : Int
  reliable : Bool
  deriving DecidableEq, Repr

/-- `message_ack` -/
structure MessageAck where
  sequence : Int
  frameIndex : Int
  deriving DecidableEq, Repr

/-! ## Sending -/

/-- The flags that `send_packet_bin` sets. -/
def MessagePacket.binFlags (p : MessagePacket) : Nat :=
  (if p.reliable then kAooBinMsgMessageReliable else 0) +
  (if p.numFrames > 1 then kAooBinMsgMessageFrames else 0) +
  (if p.tt ≠ 0 then kAooBinMsgMessageTimestamp else 0)

/-- The part of a binary message behind its header. -/
def MessagePacket.bytes (p : MessagePacket) : List UInt8 :=
  int32Bytes p.sequence ++ (toBytes 2 p.binFlags ++ (toBytes 2 p.data.length ++
    ((if p.numFrames > 1 then
        int32Bytes p.totalSize ++ (int32Bytes p.numFrames ++ int32Bytes p.frameIndex)
      else []) ++
    ((if p.tt ≠ 0 then toBytes 8 p.tt else []) ++
    (int32Bytes p.type ++ p.data)))))

/-- `send_packet_bin`; `none` when the packet does not fit the local buffer. An
assertion guards this, and without it the copy goes behind the end of the
buffer. -/
def sendPacketBin (groupId localId : Int) (p : MessagePacket) : Option Datagram :=
  let data := binmsgWriteHeader AOO_MAX_PACKET_SIZE .peer kAooBinMsgCmdMessage groupId localId
    ++ p.bytes
  if data.length ≤ AOO_MAX_PACKET_SIZE then some (.bin data) else none

/-- The arguments of `/aoo/peer/msg` behind the two ids. -/
def MessagePacket.args (p : MessagePacket) : List OscArg :=
  [.int32 (if p.reliable then kAooMessageReliable else 0), .int32 p.sequence,
    .int32 p.totalSize] ++
  (if p.numFrames > 1 then [.int32 p.numFrames, .int32 p.frameIndex] else [.nil, .nil]) ++
  [if p.tt ≠ 0 then .timeTag p.tt else .nil, .int32 p.type, .blob p.data]

/-- `send_packet_osc`; `none` when the message does not fit the local buffer, so
that `oscpack` throws. -/
def sendPacketOsc (groupId localId : Int) (p : MessagePacket) : Option Datagram :=
  let msg : OscMessage := ⟨.peerMessage, .int32 groupId :: .int32 localId :: p.args⟩
  if msg.size ≤ AOO_MAX_PACKET_SIZE then some (.osc msg) else none

/-- `send_ack` -/
def sendAck (groupId localId : Int) (binaryAck : Bool) (ack : MessageAck) : Datagram :=
  if binaryAck then
    .bin (binmsgWriteHeader 64 .peer kAooBinMsgCmdAck groupId localId ++
      (int32Bytes 1 ++ (int32Bytes ack.sequence ++ int32Bytes ack.frameIndex)))
  else
    .osc ⟨.peerAck, [.int32 groupId, .int32 localId, .int32 ack.sequence, .int32 ack.frameIndex]⟩

/-! ## Receiving -/

/-- `handle_client_message` (binary), up to the call of
`do_handle_client_message`: the packet and its flags, `none` for a malformed
message. -/
def parseMessageBin (bs : List UInt8) : Except Fault (Option (MessagePacket × Nat)) :=
  if bs.length < 8 then .ok none
  else
    let sequence := int32Field bs
    let flags := field 2 (bs.drop 4)
    let size := field 2 ((bs.drop 4).drop 2)
    let bs := ((bs.drop 4).drop 2).drop 2
    let frames := hasBit flags kAooBinMsgMessageFrames
    if frames && decide (bs.length < 12) then .ok none
    else
      let totalSize := if frames then int32Field bs else size
      let numFrames := if frames then int32Field (bs.drop 4) else 1
      let frameIndex := if frames then int32Field ((bs.drop 4).drop 4) else 0
      let bs := if frames then ((bs.drop 4).drop 4).drop 4 else bs
      let timestamp := hasBit flags kAooBinMsgMessageTimestamp
      if timestamp && decide (bs.length < 8) then .ok none
      else
        let tt := if timestamp then field 8 bs else 0
        let bs := if timestamp then bs.drop 8 else bs
        -- the type is read without a look at the remaining size
        if bs.length < 4 then .error .read
        else
          let type := int32Field bs
          let bs := bs.drop 4
          if bs.length < size then .ok none
          else
            .ok (some (⟨type, bs.take size, tt, sequence, totalSize, numFrames, frameIndex,
              hasBit flags kAooMessageReliable⟩, flags))

/-- `handle_client_message` (OSC), up to the call of `do_handle_client_message`;
`none` when a wrong argument type, a missing argument or an empty blob throws
an `osc::Exception`. -/
def parseMessageOsc : List OscArg → Option (MessagePacket × Nat)
  | .int32 flags :: .int32 sequence :: .int32 totalSize :: rest =>
    let frames : Option (Int × Int × List OscArg) :=
      match rest with
      | .nil :: _ :: rest => some (1, 0, rest)
      | .int32 numFrames :: .int32 frameIndex :: rest => some (numFrames, frameIndex, rest)
      | _ => none
    match frames with
    | none => none
    | some (numFrames, frameIndex, rest) =>
      let tt : Option (Nat × List OscArg) :=
        match rest with
        | .nil :: rest => some (0, rest)
        | .timeTag tt :: rest => some (tt, rest)
        | _ => none
      match tt with
      | some (tt, .int32 type :: .blob data :: _) =>
        let flags := unsigned 4294967296 flags
        if data = [] then none
        else some (⟨type, data, tt, sequence, totalSize, numFrames, frameIndex,
          hasBit flags kAooMessageReliable⟩, flags)
      | _ => none
  | _ => none

/-- The acknowledgements of a binary ack message behind its count: `n` rounds of
the reading loop. -/
def readAcks : Nat → List UInt8 → Except Fault (List MessageAck)
  | 0, _ => .ok []
  | n + 1, bs =>
    if bs.length < 8 then .error .read
    else
      match readAcks n ((bs.drop 4).drop 4) with
      | .ok acks => .ok (⟨int32Field bs, int32Field (bs.drop 4)⟩ :: acks)
      | .error e => .error e

/-- `handle_ack` (binary): the acknowledgements that are pushed. The size check
multiplies the count in `int32` and compares as `size_t`; a count that has
become negative counts down through the whole type. -/
def parseAckBin (bs : List UInt8) : Except Fault (List MessageAck) :=
  if bs.length < 4 then .ok []
  else
    let count := int32Field bs
    let need := signed 4294967296 (unsigned 4294967296 (count * 8))
    if 0 ≤ need ∧ need ≤ ((bs.length : Int) - 4) then
      readAcks (unsigned 4294967296 count) (bs.drop 4)
    else .ok []

/-- `handle_ack` (OSC): pairs of sequence and frame, until an argument of
another type throws. -/
def parseAckOsc : List OscArg → List MessageAck
  | .int32 seq :: .int32 frame :: rest => ⟨seq, frame⟩ :: parseAckOsc rest
  | _ => []

/-! ## Round trips -/

/-- The fields are in the ranges of their types, the payload fits a datagram,
and a packet without frame section is a whole message. -/
structure MessagePacket.Wire (p : MessagePacket) : Prop where
  type : -2147483648 ≤ p.type ∧ p.type < 2147483648
  tt : p.tt < 18446744073709551616
  sequence : -2147483648 ≤ p.sequence ∧ p.sequence < 2147483648
  total : -2147483648 ≤ p.totalSize ∧ p.totalSize < 2147483648
  num : -2147483648 ≤ p.numFrames ∧ p.numFrames < 2147483648
  index : -2147483648 ≤ p.frameIndex ∧ p.frameIndex < 2147483648
  single : p.numFrames ≤ 1 → p.totalSize = p.data.length

/-- What the receiver makes of a packet: without a frame section there is one
frame, with index 0. -/
def MessagePacket.received (p : MessagePacket) : MessagePacket :=
  if p.numFrames > 1 then p else { p with numFrames := 1, frameIndex := 0 }

/-- The binary parser undoes the binary encoder. -/
theorem parseMessageBin_bytes {p : MessagePacket} (h : p.Wire) (hlen : p.data.length < 65536) :
    parseMessageBin p.bytes = .ok (some (p.received, p.binFlags)) := by
  obtain ⟨type, data, tt, sequence, totalSize, numFrames, frameIndex, reliable⟩ := p
  obtain ⟨⟨htype0, htype1⟩, htt, ⟨hseq0, hseq1⟩, ⟨htot0, htot1⟩, ⟨hnum0, hnum1⟩, ⟨hidx0, hidx1⟩,
    hsingle⟩ := h
  simp only at *
  have hsize : data.length % 65536 = data.length := Nat.mod_eq_of_lt hlen
  have htt' : tt % 18446744073709551616 = tt := Nat.mod_eq_of_lt htt
  by_cases hn : numFrames > 1
  · by_cases ht : tt = 0 <;> cases reliable <;>
      simp [parseMessageBin, MessagePacket.bytes, MessagePacket.binFlags, MessagePacket.received,
        kAooBinMsgMessageFrames, kAooBinMsgMessageReliable, kAooBinMsgMessageTimestamp,
        kAooMessageReliable, hasBit, *] <;>
      rw [if_neg (by omega), if_neg (by omega)]
  · -- the total size is not sent: the receiver takes the size of the frame
    have htotal : totalSize = data.length := hsingle (by omega)
    by_cases ht : tt = 0 <;> cases reliable <;>
      simp [parseMessageBin, MessagePacket.bytes, MessagePacket.binFlags, MessagePacket.received,
        kAooBinMsgMessageFrames, kAooBinMsgMessageReliable, kAooBinMsgMessageTimestamp,
        kAooMessageReliable, hasBit, *] <;>
      omega

/-- The OSC parser undoes the OSC encoder, except that it rejects an empty
payload. -/
theorem parseMessageOsc_args (p : MessagePacket) :
    parseMessageOsc p.args = if p.data = [] then none
      else some (p.received, if p.reliable then kAooMessageReliable else 0) := by
  obtain ⟨type, data, tt, sequence, totalSize, numFrames, frameIndex, reliable⟩ := p
  by_cases hn : numFrames > 1 <;> by_cases ht : tt = 0 <;> cases reliable <;>
    simp [parseMessageOsc, MessagePacket.args, MessagePacket.received, unsigned,
      kAooMessageReliable, hasBit, hn, ht]

/-- The packet that a receiver reads, `none` for one that its parser refuses. -/
def MessagePacket.parsed (p : MessagePacket) (binary : Bool) : Option MessagePacket :=
  if binary then (parseMessageBin p.bytes).toOption.join.map Prod.fst
  else (parseMessageOsc p.args).map Prod.fst

/-- Both parsers read what was sent, except that a frame without content is
refused in the OSC form. -/
theorem MessagePacket.parsed_eq {p : MessagePacket} (h : p.Wire) (hlen : p.data.length < 65536)
    (binary : Bool) :
    p.parsed binary = if binary = true ∨ p.data ≠ [] then some p.received else none := by
  cases binary with
  | true =>
    rw [if_pos (Or.inl rfl), parsed, if_pos rfl, parseMessageBin_bytes h hlen]
    rfl
  | false =>
    rw [parsed, if_neg Bool.false_ne_true, parseMessageOsc_args]
    by_cases hdata : p.data = []
    · rw [if_pos hdata, if_neg (by simp [hdata])]
      rfl
    · rw [if_neg hdata, if_pos (Or.inr hdata)]
      rfl

@[simp] theorem hasBit_binFlags (p : MessagePacket) :
    hasBit p.binFlags kAooMessageReliable = p.reliable := by
  by_cases hn : p.numFrames > 1 <;> by_cases ht : p.tt = 0 <;> cases hr : p.reliable <;>
    simp [MessagePacket.binFlags, kAooBinMsgMessageFrames, kAooBinMsgMessageReliable,
      kAooBinMsgMessageTimestamp, kAooMessageReliable, hasBit, hn, ht, hr]

/-- The acknowledgement that `send_ack` writes is the one that is read. -/
theorem parseAckBin_bytes {ack : MessageAck}
    (hseq : -2147483648 ≤ ack.sequence ∧ ack.sequence < 2147483648)
    (hidx : -2147483648 ≤ ack.frameIndex ∧ ack.frameIndex < 2147483648) :
    parseAckBin (int32Bytes 1 ++ (int32Bytes ack.sequence ++ int32Bytes ack.frameIndex)) =
      .ok [ack] := by
  have hlast : int32Field (int32Bytes ack.frameIndex) = ack.frameIndex := by
    have := int32Field_append hidx.1 hidx.2 []
    rwa [List.append_nil] at this
  simp [parseAckBin, readAcks, hseq, hlast, unsigned]
  decide

end Aoo.Net
