import Aoo.Net.Fragment
import Aoo.Stream.Sizes

/-!
# The size of peer messages

`send_message` cuts a message so that a frame and the head in front of it should fit the packet
size. The constant for OSC messages is large enough. That for binary messages, `kBinMessageHeaderSize`,
counts 28 bytes for arguments that may take 32, so that a frame with a time tag between users with
large ids is too long (`message_within_iff`), and at the largest packet size it overruns the buffer
(`sendPackets_ok_iff`). `get_frame` makes the last frame of a message longer when it is sent
again, whatever the form is (`resend_within_iff`).

Main result: `datagrams_within_iff`, for sources and peers.
-/

namespace Aoo.Net

open Lib

/-- The size of a peer message with `frames` frames, of which this one has `n` bytes. -/
def messageSize (binary : Bool) (groupId localId frames : Int) (tt n : Nat) : Nat :=
  if binary then
    Stream.headerSize groupId localId + 12 + (if frames > 1 then 12 else 0) +
      (if tt ≠ 0 then 8 else 0) + n
  else 56 + (if frames > 1 then 8 else 0) + (if tt ≠ 0 then 8 else 0) + pad4 n

theorem length_bytes (packet : MessagePacket) :
    packet.bytes.length = 12 + (if packet.numFrames > 1 then 12 else 0) +
      (if packet.tt ≠ 0 then 8 else 0) + packet.data.length := by
  unfold MessagePacket.bytes
  by_cases hframes : packet.numFrames > 1 <;> by_cases htt : packet.tt = 0 <;>
    simp only [hframes, htt, if_true, if_false, ne_eq, not_true, not_false_eq_true,
      List.length_append, int32Bytes_length, toBytes_length, List.length_nil] <;> omega

theorem size_args (packet : MessagePacket) (groupId localId : Int) :
    (⟨.peerMessage, .int32 groupId :: .int32 localId :: packet.args⟩ : OscMessage).size =
      56 + (if packet.numFrames > 1 then 8 else 0) +
      (if packet.tt ≠ 0 then 8 else 0) + pad4 packet.data.length := by
  unfold OscMessage.size MessagePacket.args
  by_cases hframes : packet.numFrames > 1 <;> by_cases htt : packet.tt = 0 <;>
    simp only [hframes, htt, if_true, if_false, ne_eq, not_true, not_false_eq_true,
      List.cons_append, List.nil_append, List.map_cons, List.map_nil, List.sum_cons, List.sum_nil,
      List.length_cons, List.length_nil, OscArg.size, OscAddress.length] <;> unfold pad4 <;> omega

/-- `send_packet_osc` sends what fits its buffer. -/
theorem sendPacketOsc_eq (groupId localId : Int) (packet : MessagePacket) :
    sendPacketOsc groupId localId packet =
      if messageSize false groupId localId packet.numFrames packet.tt packet.data.length ≤ 4096
      then some (.osc ⟨.peerMessage, .int32 groupId :: .int32 localId :: packet.args⟩)
      else none := by
  have hsize := size_args packet groupId localId
  rw [sendPacketOsc]
  simp only [hsize]
  rfl

/-- `send_packet_bin` too. -/
theorem sendPacketBin_isSome_iff (groupId localId : Int) (packet : MessagePacket) :
    (∃ d, sendPacketBin groupId localId packet = some d) ↔
      messageSize true groupId localId packet.numFrames packet.tt packet.data.length ≤ 4096 := by
  have hlength : (binmsgWriteHeader AOO_MAX_PACKET_SIZE .peer kAooBinMsgCmdMessage groupId
      localId ++ packet.bytes).length =
        messageSize true groupId localId packet.numFrames packet.tt packet.data.length := by
    rw [List.length_append, Stream.binmsgWriteHeader_length (by decide), length_bytes]
    unfold messageSize
    rw [if_pos rfl]
    omega
  rw [sendPacketBin, ← hlength]
  split
  next h => exact iff_of_true ⟨_, rfl⟩ h
  next h =>
    refine iff_of_false ?_ h
    rintro ⟨d, ⟨⟩⟩

/-- A packet is sent if it fits the buffer of the form it is sent in. -/
theorem sendPacket_isSome_iff (p : Peer) (binary : Bool) (packet : MessagePacket) :
    (∃ d, p.sendPacket binary packet = some d) ↔
      messageSize binary p.groupId p.localId packet.numFrames packet.tt packet.data.length ≤
        AOO_MAX_PACKET_SIZE := by
  cases binary with
  | true => exact sendPacketBin_isSome_iff p.groupId p.localId packet
  | false =>
    rw [Peer.sendPacket, if_neg Bool.false_ne_true, sendPacketOsc_eq]
    split
    next hfits => exact iff_of_true ⟨_, rfl⟩ hfits
    next hfits =>
      refine iff_of_false ?_ hfits
      rintro ⟨d, ⟨⟩⟩

/-- Its datagram has the size that `messageSize` counts. -/
theorem sendPacket_size {p : Peer} {binary : Bool} {packet : MessagePacket} {d : Datagram}
    (h : p.sendPacket binary packet = some d) :
    d.size =
      messageSize binary p.groupId p.localId packet.numFrames packet.tt packet.data.length := by
  cases binary with
  | true =>
    rw [Peer.sendPacket, if_pos rfl, sendPacketBin] at h
    split at h
    next =>
      cases h
      show (_ : List UInt8).length = _
      rw [List.length_append, Stream.binmsgWriteHeader_length (by decide), length_bytes]
      unfold messageSize
      rw [if_pos rfl]
      omega
    next => cases h
  | false =>
    rw [Peer.sendPacket, if_neg Bool.false_ne_true, sendPacketOsc_eq] at h
    split at h
    next =>
      cases h
      exact size_args packet p.groupId p.localId
    next => cases h

theorem within_sendPacket {packetSize : Nat} (hmax : packetSize ≤ AOO_MAX_PACKET_SIZE) (p : Peer)
    (binary : Bool) (packet : MessagePacket) :
    Within packetSize (p.sendPacket binary packet) ↔
      messageSize binary p.groupId p.localId packet.numFrames packet.tt packet.data.length ≤
        packetSize := by
  constructor
  · rintro ⟨d, hd, hsize⟩
    exact sendPacket_size hd ▸ hsize
  · intro hsize
    obtain ⟨d, hd⟩ := (sendPacket_isSome_iff p binary packet).mpr (Nat.le_trans hsize hmax)
    exact ⟨d, hd, (sendPacket_size hd).symm ▸ hsize⟩

/-- **Sending does not fault** as long as all packets fit the buffers. -/
theorem sendPackets_ok_iff (p : Peer) (binary : Bool) (packets : List MessagePacket) :
    (∃ ds, sendPackets p binary packets = .ok ds) ↔
      ∀ packet ∈ packets, messageSize binary p.groupId p.localId packet.numFrames packet.tt
        packet.data.length ≤ AOO_MAX_PACKET_SIZE := by
  induction packets with
  | nil => exact iff_of_true ⟨[], rfl⟩ fun _ h => absurd h List.not_mem_nil
  | cons packet rest ih =>
    rw [List.forall_mem_cons, ← ih, ← sendPacket_isSome_iff]
    constructor
    · rintro ⟨ds, hds⟩
      obtain ⟨d, ds', hd, hds', -⟩ := sendPackets_cons_ok.mp hds
      exact ⟨⟨d, hd⟩, ds', hds'⟩
    · rintro ⟨⟨d, hd⟩, ds', hds'⟩
      exact ⟨d :: ds', sendPackets_cons_ok.mpr ⟨d, ds', hd, hds', rfl⟩⟩

/-- All packets are sent, and respect the packet size. -/
theorem within_sendPackets {packetSize : Nat} (p : Peer) (binary : Bool)
    (packets : List MessagePacket) :
    (∃ ds, sendPackets p binary packets = .ok ds ∧ ds.length = packets.length ∧
      ∀ d ∈ ds, d.size ≤ packetSize) ↔
      ∀ packet ∈ packets, Within packetSize (p.sendPacket binary packet) := by
  induction packets with
  | nil =>
    refine iff_of_true ⟨[], rfl, rfl, ?_⟩ fun _ h => absurd h List.not_mem_nil
    exact fun _ h => absurd h List.not_mem_nil
  | cons packet rest ih =>
    rw [List.forall_mem_cons, ← ih]
    constructor
    · rintro ⟨ds, hds, hlength, hsizes⟩
      obtain ⟨d, ds', hd, hds', rfl⟩ := sendPackets_cons_ok.mp hds
      obtain ⟨hfirst, hrest⟩ := List.forall_mem_cons.mp hsizes
      exact ⟨⟨d, hd, hfirst⟩, ds', hds', Nat.add_right_cancel hlength, hrest⟩
    · rintro ⟨⟨d, hd, hfirst⟩, ds', hds', hlength, hrest⟩
      exact ⟨d :: ds', sendPackets_cons_ok.mpr ⟨d, ds', hd, hds', rfl⟩,
        congrArg (· + 1) hlength, List.forall_mem_cons.mpr ⟨hfirst, hrest⟩⟩

/-! ## Sending a message -/

theorem numFrames_gt_one_iff {size ms : Nat} (hpos : 0 < ms) : 1 < numFrames size ms ↔ ms < size :=
  Stream.numFrames_gt_one_iff hpos

theorem messageSize_mono {binary : Bool} {groupId localId frames : Int} {tt m n : Nat} (h : m ≤ n) :
    messageSize binary groupId localId frames tt m ≤
      messageSize binary groupId localId frames tt n := by
  have hpad := Stream.pad4_mono h
  unfold messageSize
  split
  · omega
  · omega

/-- A frame is not larger than the largest one. -/
theorem length_messagePacket_le (m : Message) (sequence : Int) {ms : Nat} (hpos : 0 < ms)
    (i : Nat) :
    (messagePacket m sequence ms i).data.length ≤ min ms m.data.data.length := by
  have hmod := Nat.mod_lt m.data.data.length hpos
  unfold messagePacket
  simp only []
  split
  next => split <;> simp only [List.length_drop, List.length_take] <;> omega
  next hsingle =>
    have hle : m.data.data.length ≤ ms :=
      Nat.le_of_not_lt fun hlt => hsingle ((numFrames_gt_one_iff hpos).mpr hlt)
    omega

theorem length_messagePacket_zero (m : Message) (sequence : Int) {ms : Nat} (hpos : 0 < ms) :
    (messagePacket m sequence ms 0).data.length = min ms m.data.data.length := by
  unfold messagePacket
  simp only []
  split
  next hmany =>
    rw [if_neg (by omega), Nat.zero_mul, List.drop_zero, List.length_take]
  next hsingle =>
    have hle : m.data.data.length ≤ ms :=
      Nat.le_of_not_lt fun hlt => hsingle ((numFrames_gt_one_iff hpos).mpr hlt)
    omega

/-- The packets of a message are as large as the first one. -/
theorem forall_messagePackets_iff (m : Message) (sequence : Int) {ms : Nat} (hpos : 0 < ms)
    {binary : Bool} {groupId localId : Int} {packetSize : Nat} :
    (∀ packet ∈ messagePackets m sequence ms, messageSize binary groupId localId packet.numFrames
      packet.tt packet.data.length ≤ packetSize) ↔
      messageSize binary groupId localId (numFrames m.data.data.length ms) m.tt
        (min ms m.data.data.length) ≤ packetSize := by
  unfold messagePackets
  simp only []
  constructor
  · intro h
    have hmem : messagePacket m sequence ms 0 ∈ (if numFrames m.data.data.length ms > 1 then
        (List.range (numFrames m.data.data.length ms)).map (messagePacket m sequence ms)
      else [messagePacket m sequence ms 0]) := by
      split
      next hmany => exact List.mem_map.mpr ⟨0, List.mem_range.mpr (by omega), rfl⟩
      next => exact List.mem_singleton_self _
    have hfirst := h _ hmem
    rw [length_messagePacket_zero m sequence hpos] at hfirst
    exact hfirst
  · intro h packet hpacket
    obtain ⟨i, rfl⟩ : ∃ i, packet = messagePacket m sequence ms i := by
      split at hpacket
      next =>
        obtain ⟨i, -, rfl⟩ := List.mem_map.mp hpacket
        exact ⟨i, rfl⟩
      next => exact ⟨0, List.mem_singleton.mp hpacket⟩
    exact Nat.le_trans (messageSize_mono (length_messagePacket_le m sequence hpos i)) h

/-- **When the datagrams of a message respect the packet size**: always, unless the message is
sent in several binary frames with a time tag between users with large ids. -/
theorem message_within_iff (p : Peer) (m : Message) (sequence : Int) (packetSize : PacketSize)
    (binary : Bool) :
    (∀ packet ∈ messagePackets m sequence (maxsize packetSize binary),
      Within packetSize.val (p.sendPacket binary packet)) ↔
      ¬ (binary = true ∧ maxsize packetSize true < m.data.data.length ∧ m.tt ≠ 0 ∧
        (p.groupId ≥ 256 ∨ p.localId ≥ 256)) := by
  have hpos := maxsize_pos packetSize binary
  have hmax : packetSize.val ≤ AOO_MAX_PACKET_SIZE := packetSize.le
  have hmin := packetSize.ge
  have hwithin : (∀ packet ∈ messagePackets m sequence (maxsize packetSize binary),
      Within packetSize.val (p.sendPacket binary packet)) ↔
      messageSize binary p.groupId p.localId (numFrames m.data.data.length
        (maxsize packetSize binary)) m.tt (min (maxsize packetSize binary) m.data.data.length) ≤
          packetSize.val := by
    rw [← forall_messagePackets_iff m sequence hpos]
    exact forall_congr' fun packet => forall_congr' fun _ => within_sendPacket hmax p binary packet
  have hmany : ((numFrames m.data.data.length (maxsize packetSize binary) : Nat) : Int) > 1 ↔
      maxsize packetSize binary < m.data.data.length := by
    rw [← numFrames_gt_one_iff hpos]
    omega
  rw [hwithin]
  cases binary with
  | false =>
    have hroom : maxsize packetSize false = packetSize.val - 86 := rfl
    refine iff_of_true ?_ fun h => Bool.false_ne_true h.1
    unfold messageSize pad4
    rw [if_neg Bool.false_ne_true, hroom]
    split <;> split <;> omega
  | true =>
    have hroom : maxsize packetSize true = packetSize.val - 40 := rfl
    have hlarge : Stream.headerSize p.groupId p.localId =
        if p.groupId ≥ 256 ∨ p.localId ≥ 256 then 12 else 4 := rfl
    unfold messageSize
    simp only [if_true, true_and, hmany, hlarge]
    rw [hroom]
    split_ifs <;> omega

theorem length_messagePackets (m : Message) (sequence : Int) (ms : Nat) :
    (messagePackets m sequence ms).length = wireFrames m.data.data.length ms := by
  unfold messagePackets wireFrames
  simp only []
  split
  next => rw [List.length_map, List.length_range]; omega
  next => rw [List.length_singleton]; omega

/-- What `send_message` sends, if the message does not have too many frames to be reliable. -/
theorem sendMessage_within_iff (p : Peer) (m : Message) (packetSize : PacketSize) (binary : Bool)
    (hn : m.reliable = true →
      numFrames m.data.data.length (maxsize packetSize binary) ≤ frameLimit) :
    (∃ p' ds, sendMessage p m packetSize binary = .ok (p', ds) ∧
      ds.length = wireFrames m.data.data.length (maxsize packetSize binary) ∧
      ∀ d ∈ ds, d.size ≤ packetSize.val) ↔
      ¬ (binary = true ∧ maxsize packetSize true < m.data.data.length ∧ m.tt ≠ 0 ∧
        (p.groupId ≥ 256 ∨ p.localId ≥ 256)) := by
  obtain ⟨p', sequence, hframes, hgroup, hlocal⟩ : ∃ (p' : Peer) (sequence : Int),
      sendMessageFrames p m packetSize binary =
        .ok (p', messagePackets m sequence (maxsize packetSize binary)) ∧
        p'.groupId = p.groupId ∧ p'.localId = p.localId := by
    unfold sendMessageFrames
    simp only []
    split
    next hreliable =>
      rw [SentMessage.new_eq _ _ _ _ (hn hreliable)]
      exact ⟨_, _, rfl, rfl, rfl⟩
    next => exact ⟨_, _, rfl, rfl, rfl⟩
  rw [← hgroup, ← hlocal, ← message_within_iff p' m sequence packetSize binary,
    ← within_sendPackets, length_messagePackets]
  constructor
  · rintro ⟨p'', ds, h, hsizes⟩
    obtain ⟨packets, hpackets, hds⟩ := sendMessage_ok.mp h
    rw [hframes] at hpackets
    cases hpackets
    exact ⟨ds, hds, hsizes⟩
  · rintro ⟨ds, hds, hsizes⟩
    exact ⟨p', ds, sendMessage_ok.mpr ⟨_, hframes, hds⟩, hsizes⟩

/-! ## Sending again -/

theorem mem_resendPackets {sm : SentMessage} {packet : MessagePacket} :
    packet ∈ resendPackets sm ↔
      ∃ i < sm.numFrames, i ∈ sm.frames ∧ resendPacket sm i = packet := by
  unfold resendPackets SentMessage.hasFrame
  rw [List.mem_map]
  simp only [List.mem_filter, List.mem_range, decide_not, Bool.not_not, decide_eq_true_eq, and_assoc]

/-- **When the datagrams of a message that is sent again respect the packet size**: each frame
as `get_frame` cuts it must fit with the settings of now. -/
theorem resend_within_iff (p : Peer) (m : Message) (q ms : Nat) (frames : Finset Nat)
    (packetSize : PacketSize) (binary : Bool) :
    (∀ packet ∈ resendPackets { sentMessage m q ms with frames },
      Within packetSize.val (p.sendPacket binary packet)) ↔
      ∀ i < numFrames m.data.data.length ms, i ∈ frames →
        messageSize binary p.groupId p.localId (numFrames m.data.data.length ms) m.tt
          (resentSlice m.data.data.length ms i).2 ≤ packetSize.val := by
  have hmax : packetSize.val ≤ AOO_MAX_PACKET_SIZE := packetSize.le
  have hmem : ∀ packet, packet ∈ resendPackets { sentMessage m q ms with frames } ↔
      ∃ i < numFrames m.data.data.length ms, i ∈ frames ∧
        resendPacket (sentMessage m q ms) i = packet := fun packet => mem_resendPackets
  have hsize : ∀ i < numFrames m.data.data.length ms,
      (Within packetSize.val (p.sendPacket binary (resendPacket (sentMessage m q ms) i)) ↔
        messageSize binary p.groupId p.localId (numFrames m.data.data.length ms) m.tt
          (resentSlice m.data.data.length ms i).2 ≤ packetSize.val) := by
    intro i hi
    have hlength := (resendPacket_frameOf q hi).data_length
    rw [within_sendPacket hmax, hlength]
    exact Iff.rfl
  constructor
  · intro h i hi hframe
    exact (hsize i hi).mp (h _ ((hmem _).mpr ⟨i, hi, hframe, rfl⟩))
  · intro h packet hpacket
    obtain ⟨i, hi, hframe, rfl⟩ := (hmem packet).mp hpacket
    exact (hsize i hi).mpr (h i hi hframe)

/-! ## All datagrams -/

open Aoo.Stream in
/-- **When datagrams respect the packet size**: for the blocks of a source, the blocks it sends
again after any run, the messages of a peer, and the messages it sends again. -/
theorem datagrams_within_iff (s : Source) (b : Stream.Block) :
    ((∀ e ∈ (s.sendBlock b).2, Within s.packetSize.val e.datagram) ↔
      s.sequence = invalidStream ∨ s.redundancy = 0 ∨ s.binary = true ∨
        ∀ c ∈ s.cachedSinks, b.oscSize s.packetSize c.id ≤ s.packetSize.val) ∧
    (∀ (id : Int) (hid : 0 ≤ id ∧ id < 2147483648) (packetSize : Stream.PacketSize) (binary : Bool)
      (redundancy : Nat) (as : List Stream.Action) (r : Run),
      r = as.foldl Run.step (Run.start id hid packetSize binary redundancy) →
      ∀ o ∈ r.saved, o.packet.numFrames ≤ 32767 → ∀ (sink : SinkDesc) (q : DataRequest),
        r.source.history.find q.sequence = some o.stored →
        ∃ es, r.source.resendRequest sink q = some es ∧
          ((∀ e ∈ es, Within r.source.packetSize.val e.datagram) ↔
            ∀ j < max 1 (Stream.numFrames o.content.length o.maxsize),
              o.packet.numFrames = 0 ∨ q.selects j = true →
              Stream.messageSize r.source.binary sink.id r.source.id o.packet.flags
                (min o.maxsize (o.content.length - j * o.maxsize)) ≤ r.source.packetSize.val)) ∧
    (∀ (p : Peer) (m : Message) (packetSize : PacketSize) (binary : Bool),
      (m.reliable = true →
        numFrames m.data.data.length (maxsize packetSize binary) ≤ frameLimit) →
      ((∃ p' ds, sendMessage p m packetSize binary = .ok (p', ds) ∧
        ds.length = wireFrames m.data.data.length (maxsize packetSize binary) ∧
        ∀ d ∈ ds, d.size ≤ packetSize.val) ↔
        ¬ (binary = true ∧ maxsize packetSize true < m.data.data.length ∧ m.tt ≠ 0 ∧
          (p.groupId ≥ 256 ∨ p.localId ≥ 256)))) ∧
    ∀ (p : Peer) (m : Message) (q ms : Nat) (frames : Finset Nat) (packetSize : PacketSize)
      (binary : Bool),
      (∃ ds, sendPackets p binary (resendPackets { sentMessage m q ms with frames }) = .ok ds ∧
        ds.length = (resendPackets { sentMessage m q ms with frames }).length ∧
        ∀ d ∈ ds, d.size ≤ packetSize.val) ↔
        ∀ i < numFrames m.data.data.length ms, i ∈ frames →
          messageSize binary p.groupId p.localId (numFrames m.data.data.length ms) m.tt
            (resentSlice m.data.data.length ms i).2 ≤ packetSize.val := by
  refine ⟨block_within_iff s b, ?_, sendMessage_within_iff, ?_⟩
  · intro id hid packetSize binary redundancy as r hr o ho hn sink q hfind
    have hinv := run_inv (runInv_start id hid packetSize binary redundancy) as
    rw [← hr] at hinv
    exact Stream.resend_within_iff (hinv.saved o ho) hn r.source sink q hfind
  · intro p m q ms frames packetSize binary
    rw [within_sendPackets]
    exact resend_within_iff p m q ms frames packetSize binary

/-- A block of a hundred bytes with stream messages, a time tag and a sample rate. -/
def longBlock : Stream.Block where
  tt := 1
  samplerate := 4676829883349860352
  sourceTimestamp := 0
  absoluteSamplePosition := 0
  message := [0, 0, 0, 0]
  audio := List.replicate 96 0
  tt_lt := by decide
  samplerate_lt := by decide
  message_pad := by decide
  size_lt := by decide

open Aoo.Stream in
/-- A stream to one sink with the smallest packet size. -/
def smallPackets (binary : Bool) : Run :=
  [Stream.Action.setSinks
      [⟨13, 51, 7, [], by decide, by decide, by decide⟩],
    .makeNewStream none, .resizeHistory 6 (by decide), .sendBlock longBlock].foldl Run.step
      (Run.start 14 (by decide) (.control 146) binary 1)

/-- A message with a time tag. -/
def timedMessage (data : List UInt8) : Message where
  tt := 1
  data := { type := 0, data }
  reliable := false

/-- The binary form of a block respects the packet size, also when it is sent again, and
so does a short message. -/
theorem small_packets_within :
    (∀ e ∈ ((smallPackets true).source.sendBlock longBlock).2, Within 146 e.datagram) ∧
    (∃ o ∈ (smallPackets true).saved, ∃ es,
      (smallPackets true).source.resendRequest ⟨13, 51, 7, [], by decide, by decide, by decide⟩
        ⟨0, -1, 0⟩ = some es ∧
      o.packet.numFrames ≤ 32767 ∧ ∀ e ∈ es, Within 146 e.datagram) ∧
    ∃ p' ds, sendMessage (Peer.new 1 2 3) (timedMessage [1, 2, 3]) ⟨150, by decide, by decide⟩
      true = .ok (p', ds) ∧ ∀ d ∈ ds, d.size ≤ 150 := by
  obtain ⟨hblock, hresend, hmessage, -⟩ :=
    datagrams_within_iff (smallPackets true).source longBlock
  refine ⟨hblock.mpr (.inr (.inr (.inl rfl))), ?_, ?_⟩
  · obtain ⟨o, ho⟩ : ∃ o, (smallPackets true).saved = [o] := ⟨_, rfl⟩
    have hmem : o ∈ (smallPackets true).saved := ho ▸ List.mem_singleton_self o
    have hchecked : ∀ o ∈ (smallPackets true).saved, o.packet.numFrames ≤ 32767 ∧
        (smallPackets true).source.history.find 0 = some o.stored ∧
        ∀ j < max 1 (Stream.numFrames o.content.length o.maxsize),
          Stream.messageSize true 13 14 o.packet.flags
            (min o.maxsize (o.content.length - j * o.maxsize)) ≤ 146 := by
      decide +kernel
    obtain ⟨hn, hfind, hsizes⟩ := hchecked o hmem
    obtain ⟨es, hes, hiff⟩ := hresend 14 (by decide) (.control 146) true 1 _
      (smallPackets true) rfl o hmem hn ⟨13, 51, 7, [], by decide, by decide, by decide⟩
      ⟨0, -1, 0⟩ hfind
    exact ⟨o, hmem, es, hes, hn, hiff.mpr fun j hj _ => hsizes j hj⟩
  · obtain ⟨p', ds, h, -, hfits⟩ := (hmessage (Peer.new 1 2 3) (timedMessage [1, 2, 3])
      ⟨150, by decide, by decide⟩ true (by decide)).mpr (by decide)
    exact ⟨p', ds, h, hfits⟩

/-- The OSC form of the same block does not, and the frames of a long message with a
time tag between users with large ids do not even fit the buffer. -/
theorem long_datagrams :
    (∃ e ∈ ((smallPackets false).source.sendBlock longBlock).2, ¬ Within 146 e.datagram) ∧
    ¬ ∀ packet ∈ messagePackets (timedMessage (List.replicate 5000 0)) 0
        (maxsize ⟨4096, by decide, by decide⟩ true),
      Within 4096 ((Peer.new 300 1 2).sendPacket true packet) := by
  constructor
  · decide +kernel
  · intro h
    refine (message_within_iff (Peer.new 300 1 2) (timedMessage (List.replicate 5000 0)) 0
      ⟨4096, by decide, by decide⟩ true).mp h ⟨rfl, ?_, by decide, by decide⟩
    show 4096 - 40 < (List.replicate 5000 (0 : UInt8)).length
    rw [List.length_replicate]
    decide

end Aoo.Net
