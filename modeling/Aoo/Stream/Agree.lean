import Aoo.Stream.Emission

/-!
# Two forms of one packet

A source sends a packet as an OSC message or in binary form, as the user sets
it. Both parsers of the sink should make the same of it. They do for a block of
one frame. The OSC parser marks a packet with a frame count as one with stream
messages (`parseDataOsc`), and takes a packet without frame count for a block of
one frame, also if the block is empty; so the two forms differ for every other
block (`emitted_agree_iff`).
-/

namespace Aoo.Stream

open Lib

/-- Both parses have the fields that `add_packet`, `received_block::init` and
`try_decode_block` use. -/
structure Agree (n m : NetPacket) : Prop where
  sequence : n.sequence = m.sequence
  flags : n.flags = m.flags
  frames : n.numFrames = m.numFrames
  index : n.frameIndex = m.frameIndex
  total : n.totalSize = m.totalSize
  msg : n.msgSize = m.msgSize
  samplerate : n.samplerate = m.samplerate
  tt : n.tt = m.tt
  data : n.data = m.data

/-- What the OSC parser makes of a packet. -/
def DataPacket.receivedOsc (d : DataPacket) (streamId : Int) : NetPacket where
  streamId := streamId
  sequence := d.sequence
  channel := d.channel
  tt := if hasBit d.flags kAooBinMsgDataTimeStamp then d.tt else 0
  samplerate := if hasBit d.flags kAooBinMsgDataSampleRate then d.samplerate else 0
  totalSize := d.totalSize
  msgSize := if hasBit d.flags kAooBinMsgDataStreamMessage then d.msgSize else 0
  numFrames := if hasBit d.flags kAooBinMsgDataFrames then d.numFrames else 1
  frameIndex := if hasBit d.flags kAooBinMsgDataFrames then d.frameIndex else 0
  data := if hasBit d.flags kAooBinMsgDataXRun then [] else d.data
  flags := (if hasBit d.flags kAooBinMsgDataTimeStamp then kAooBinMsgDataTimeStamp else 0) |||
    (if hasBit d.flags kAooBinMsgDataSampleRate then kAooBinMsgDataSampleRate else 0) |||
    (if hasBit d.flags kAooBinMsgDataStreamMessage then kAooBinMsgDataStreamMessage else 0) |||
    (if hasBit d.flags kAooBinMsgDataFrames then kAooBinMsgDataStreamMessage else 0) |||
    (if hasBit d.flags kAooBinMsgDataXRun then kAooBinMsgDataXRun else 0)

/-- An optional argument gives its value and flag if it was sent. -/
theorem optional_ite {α : Type} {read : OscArg → Option α} {arg : OscArg} {v : α}
    (hread : read arg = some v) (harg : arg ≠ .nil) (default : α) (flag : Nat) (sent : Bool) :
    optional read default flag (if sent then arg else .nil) =
      some (if sent then v else default, if sent then flag else 0) := by
  cases sent
  · rfl
  · simp only [optional, if_true, if_neg harg, hread, Option.map_some]

theorem parseDataOsc_args (d : DataPacket) (id streamId : Int) :
    parseDataOsc (d.args id streamId) = some (id, d.receivedOsc streamId) := by
  have htt := @optional_ite Nat asTimeTag (.timeTag d.tt) d.tt rfl nofun
  have hrate := @optional_ite Nat asDouble (.double d.samplerate) d.samplerate rfl nofun
  have hmsg := @optional_ite Int asInt32 (.int32 d.msgSize) d.msgSize rfl nofun
  unfold DataPacket.args DataPacket.receivedOsc
  cases hasBit d.flags kAooBinMsgDataFrames <;> cases hasBit d.flags kAooBinMsgDataXRun <;>
    simp only [Bool.false_eq_true, if_false, if_true, List.cons_append, List.nil_append,
      parseDataOsc, asInt32, asBlob, htt, hrate, hmsg, Option.bind_some, Option.map_some,
      reduceCtorEq]

/-- The OSC parser never sets the frames flag. -/
theorem receivedOsc_flags (d : DataPacket) (streamId : Int) :
    hasBit (d.receivedOsc streamId).flags kAooBinMsgDataFrames = false := by
  simp only [DataPacket.receivedOsc, hasBit_or, hasBit_ite]
  simp [hasBit, kAooBinMsgDataTimeStamp, kAooBinMsgDataSampleRate, kAooBinMsgDataStreamMessage,
    kAooBinMsgDataXRun, kAooBinMsgDataFrames]

/-- The OSC message fits the local buffer of the sender. -/
def OscFits (s : CachedSink) (id : Int) (d : DataPacket) : Prop :=
  (⟨.sinkData s.id, d.args id s.streamId⟩ : OscMessage).size ≤ AOO_MAX_PACKET_SIZE

instance (s : CachedSink) (id : Int) (d : DataPacket) : Decidable (OscFits s id d) :=
  inferInstanceAs (Decidable (_ ≤ _))

theorem parse_sendPacketOsc (s : CachedSink) (id : Int) (d : DataPacket) :
    (sendPacketOsc s id d).bind parseData =
      if OscFits s id d then some (s.id, id, d.receivedOsc s.streamId) else none := by
  by_cases hf : OscFits s id d
  · rw [if_pos hf]
    unfold OscFits at hf
    simp only [sendPacketOsc, if_pos hf, Option.bind_some, parseData, parseDataOsc_args,
      Option.map_some]
  · rw [if_neg hf]
    unfold OscFits at hf
    simp only [sendPacketOsc, if_neg hf, Option.bind_none]

/-- The channel byte does not matter to the rest. -/
theorem parse_sendPacketBin {d : DataPacket} (h : d.Wire) {s : CachedSink} {id : Int}
    (hs : 0 ≤ s.id ∧ s.id < 2147483648) (hid : 0 ≤ id ∧ id < 2147483648)
    (hstream : -2147483648 ≤ s.streamId ∧ s.streamId < 2147483648) (hn : d.numFrames < 65536)
    (hf : Fits s id d) :
    (sendPacketBin s id d).bind parseData = some (s.id, id,
      ({ d with channel := ((unsigned 256 d.channel : Nat) : Int) } : DataPacket).received
        s.streamId) := by
  have hlt : unsigned 256 d.channel < 256 := unsigned_lt (by decide) _
  have hhead : ({ d with channel := ((unsigned 256 d.channel : Nat) : Int) } : DataPacket).head
      s.streamId = d.head s.streamId := by
    have hbyte : toByte ((unsigned 256 d.channel : Nat) : Int) = toByte d.channel := by
      rw [toByte, toByte, unsigned_toNat_of_lt (by omega) (by omega), Int.toNat_natCast]
    simp only [DataPacket.head, hbyte]
    rfl
  have hlen : d.data.length < 65536 := by
    unfold Fits DataPacket.binSize AOO_MAX_PACKET_SIZE at hf
    omega
  have hwire : ({ d with channel := ((unsigned 256 d.channel : Nat) : Int) } : DataPacket).Wire :=
    ⟨h.sequence, h.tt, h.samplerate, h.total, h.msg, h.flags, h.frame, h.noFrames, h.noMessage,
      h.noRate, h.noTime, h.lowLatency⟩
  have hparse := parseData_bin hwire hs hid hstream ⟨by simp, by simpa using by omega⟩ hn hlen
  rw [hhead] at hparse
  rw [(sendPacketBin_eq h hn s id).1 hf, Option.bind_some]
  exact hparse

/-- The flags of a packet of one frame, put together from those that the OSC
parser knows. -/
theorem flags_eq : ∀ f < 64, hasBit f kAooBinMsgDataFrames = false →
    hasBit f kAooBinMsgDataXRun = false → hasBit f kAooBinMsgDataLowLatency = false →
    (if hasBit f kAooBinMsgDataTimeStamp then kAooBinMsgDataTimeStamp else 0) |||
      (if hasBit f kAooBinMsgDataSampleRate then kAooBinMsgDataSampleRate else 0) |||
      (if hasBit f kAooBinMsgDataStreamMessage then kAooBinMsgDataStreamMessage else 0) |||
      0 ||| 0 = f := by
  decide

/-- A packet of one frame means the same in both forms. -/
theorem received_agree {o : Original} (h : o.Ok) {p : DataPacket} (hp : p ∈ o.packets)
    (channel channel' : Int) (hn : p.numFrames = 1)
    (hll : hasBit p.flags kAooBinMsgDataLowLatency = false) (streamId : Int) :
    Agree (({ p with channel := channel } : DataPacket).receivedOsc streamId)
      (({ p with channel := channel' } : DataPacket).received streamId) := by
  have hwire : p.Wire := h.wire hp p.channel
  rw [h.packets, framePackets_eq _ h.maxsize.2, List.mem_map] at hp
  obtain ⟨j, -, rfl⟩ := hp
  have hone : o.packet.numFrames = 1 := hn
  have hframes : hasBit o.packet.flags kAooBinMsgDataFrames = false := by
    rw [Bool.eq_false_iff]
    intro hc
    have := h.framesFlag.mp hc
    omega
  have hxrun : hasBit o.packet.flags kAooBinMsgDataXRun = false := by
    rw [Bool.eq_false_iff]
    intro hc
    have hzero := h.frames
    rw [h.xrun hc, List.length_nil, numFrames, numChunks_zero] at hzero
    omega
  have hidx : (j : Int) = 0 := by
    rcases hwire.frame with hf | hf
    · simp only [frameOf] at hf
      omega
    · exact hf.2.1
  have hll' : hasBit o.packet.flags kAooBinMsgDataLowLatency = false := hll
  have hflags := flags_eq o.packet.flags h.flags hframes hxrun hll'
  have hmsg : (if hasBit o.packet.flags kAooBinMsgDataStreamMessage then o.packet.msgSize else 0) =
      o.packet.msgSize := by
    split
    next => rfl
    next hno => exact (h.noMessage (by simpa using hno)).symm
  have htt : (if hasBit o.packet.flags kAooBinMsgDataTimeStamp then o.packet.tt else 0) =
      o.packet.tt := by
    split
    next => rfl
    next hno => exact (h.noTime (by simpa using hno)).symm
  constructor <;>
    simp only [DataPacket.receivedOsc, DataPacket.received, DataPacket.plain, frameOf, hll', hframes,
      hxrun, hflags, hone, hidx, hmsg, htt, Bool.false_eq_true, if_false]

/-- The binary parser gets the flags that were sent, whatever it makes of the
frame count. -/
theorem parse_sendPacketBin_flags {d : DataPacket} (h : d.Wire)
    (hll : hasBit d.flags kAooBinMsgDataLowLatency = false) (hlen : d.data.length < 65536)
    {s : CachedSink} {id : Int}
    (hstream : -2147483648 ≤ s.streamId ∧ s.streamId < 2147483648) {a b : Int} {m : NetPacket}
    (hp : (sendPacketBin s id d).bind parseData = some (a, b, m)) : m.flags = d.flags := by
  obtain ⟨data, hsend, hparse⟩ := Option.bind_eq_some_iff.mp hp
  have hargs : ∀ size, writeBinData size s.streamId d = d.head s.streamId ++ d.data := by
    intro size
    rw [writeBinData, if_neg (by simp [hll])]
  simp only [sendPacketBin, hargs] at hsend
  split at hsend
  next =>
    cases hsend
    obtain ⟨-, -, -, -, hdrop⟩ := @binmsgWriteHeader_append AOO_MAX_PACKET_SIZE (by decide) .sink
      kAooBinMsgCmdData (by decide) s.id id (d.head s.streamId ++ d.data)
    simp only [parseData] at hparse
    split at hparse
    next =>
      obtain ⟨n, hn, heq⟩ := Option.map_eq_some_iff.mp hparse
      rw [Prod.mk.injEq, Prod.mk.injEq] at heq
      rw [← heq.2.2, (parseDataBin_range hn).2.2, hdrop]
      exact (head_fields h hlen hstream d.data).2.2.2.1
    next => cases hparse
  next => cases hsend

/-- A packet without extension always fits the local buffer in binary form. -/
theorem fits_of_plain {d : DataPacket} (hll : hasBit d.flags kAooBinMsgDataLowLatency = false)
    (hlen : d.data.length ≤ 4014) (s : CachedSink) (id : Int) : Fits s id d := by
  have hsections := d.sections_length_le
  have hhead : headerSize s.id id ≤ 12 := by
    unfold headerSize
    split <;> omega
  unfold Fits DataPacket.binSize AOO_MAX_PACKET_SIZE
  rw [if_neg (by simp [hll])]
  omega

theorem DataPacket.received_fields (d : DataPacket) (streamId : Int) :
    (d.received streamId).numFrames = d.numFrames ∧
      (d.received streamId).channel = d.channel := by
  unfold DataPacket.received
  split <;> exact ⟨rfl, rfl⟩

/-- **Both forms mean the same exactly for blocks of one frame**: for every
packet without extension that `send_data` or `send_xruns` emits, both parsers
accept it and agree on every field if and only if its block has one frame (and
the OSC message fits the local buffer); the channels agree if it is in one
byte. -/
theorem emitted_agree_iff (id : Int) (hid : 0 ≤ id ∧ id < 2147483648)
    (packetSize : PacketSize) (binary : Bool) (redundancy : Nat) (as : List Action) (e : Emission)
    (he : e ∈ (as.foldl Run.step (Run.start id hid packetSize binary redundancy)).emitted)
    (hfirst : e.resent = false)
    (hll : hasBit e.packet.flags kAooBinMsgDataLowLatency = false) :
    (∃ n m, (sendPacketOsc e.sink id e.packet).bind parseData = some (e.sink.id, id, n) ∧
      (sendPacketBin e.sink id e.packet).bind parseData = some (e.sink.id, id, m) ∧
      Agree n m ∧ ((0 ≤ e.packet.channel ∧ e.packet.channel < 256) → n.channel = m.channel)) ↔
      e.packet.numFrames = 1 ∧ OscFits e.sink id e.packet := by
  have hok := emitted_ok hid he
  obtain ⟨o, ho, p, hp, hpacket⟩ := hok.first hfirst
  obtain ⟨-, hpflags, hpnum⟩ := ho.packet_fields hp
  have hflags : e.packet.flags = o.packet.flags := by rw [hpacket, ← hpflags]
  have hnum : e.packet.numFrames = o.packet.numFrames := by rw [hpacket, ← hpnum]
  have hlen : e.packet.data.length ≤ 4014 := by
    rw [hpacket]
    show p.data.length ≤ 4014
    exact Nat.le_trans (ho.data_length_le hp) ho.maxsize.1
  have hfits := fits_of_plain hll hlen e.sink id
  have hbin := fun hn : e.packet.numFrames < 65536 =>
    parse_sendPacketBin hok.wire hok.sinkId hid hok.streamId hn hfits
  rw [parse_sendPacketOsc]
  constructor
  · rintro ⟨n, m, hosc, hm, hagree, -⟩
    split at hosc
    next hfit =>
      rw [Option.some.injEq, Prod.mk.injEq, Prod.mk.injEq] at hosc
      obtain ⟨-, -, rfl⟩ := hosc
      refine ⟨?_, hfit⟩
      -- more frames show in the flags, none in the frame count
      have hle : ¬ 1 < e.packet.numFrames := by
        intro hgt
        have hset : hasBit m.flags kAooBinMsgDataFrames = true := by
          rw [parse_sendPacketBin_flags hok.wire hll (by omega) hok.streamId hm, hflags]
          exact ho.framesFlag.mpr (by omega)
        rw [← hagree.flags, receivedOsc_flags] at hset
        cases hset
      have hzero : e.packet.numFrames ≠ 0 := by
        intro hzero
        rw [hbin (by omega), Option.some.injEq, Prod.mk.injEq, Prod.mk.injEq] at hm
        have hframes := hagree.frames
        rw [← hm.2.2, (DataPacket.received_fields _ _).1] at hframes
        have hunset : ¬ hasBit e.packet.flags kAooBinMsgDataFrames = true := by
          rw [hflags, ho.framesFlag]
          omega
        simp only [DataPacket.receivedOsc, if_neg hunset, hzero] at hframes
        omega
      have := ho.frames
      omega
    next => cases hosc
  · rintro ⟨hone, hfit⟩
    rw [if_pos hfit, hbin (by omega)]
    refine ⟨_, _, rfl, rfl, ?_, fun hch => ?_⟩
    · have hagree := received_agree ho hp e.sink.channel
        ((unsigned 256 e.packet.channel : Nat) : Int) (by omega)
        (by rw [hpflags, ← hflags]; exact hll) e.sink.streamId
      rw [← hpacket] at hagree
      have hsame : ({ p with channel := ((unsigned 256 e.packet.channel : Nat) : Int) } :
          DataPacket) =
          { e.packet with channel := ((unsigned 256 e.packet.channel : Nat) : Int) } := by
        generalize ((unsigned 256 e.packet.channel : Nat) : Int) = c
        rw [hpacket]
      rwa [hsame] at hagree
    · rw [(DataPacket.received_fields _ _).2]
      exact (unsigned_of_lt hch.1 hch.2).symm

/-- A block of three bytes is one frame. -/
theorem agree_three_bytes :
    let r := [Action.setSinks [⟨1, 5, 0, [], by decide, by decide, by decide⟩],
      .makeNewStream none, .sendBlock ⟨0, 0, 0, 0, [], [1, 2, 3], by decide, by decide, by decide,
        by decide⟩].foldl Run.step (Run.start 2 (by decide) ⟨146, by decide, by decide⟩ true 1)
    r.emitted.length = 1 ∧ ∀ e ∈ r.emitted, ∃ n m,
      (sendPacketOsc e.sink 2 e.packet).bind parseData = some (e.sink.id, 2, n) ∧
      (sendPacketBin e.sink 2 e.packet).bind parseData = some (e.sink.id, 2, m) ∧ Agree n m := by
  intro r
  have hcheck : r.emitted.length = 1 ∧ ∀ e ∈ r.emitted, e.resent = false ∧
      hasBit e.packet.flags kAooBinMsgDataLowLatency = false ∧
      e.packet.numFrames = 1 ∧ OscFits e.sink 2 e.packet := by
    decide +kernel
  refine ⟨hcheck.1, fun e he => ?_⟩
  obtain ⟨hfirst, hll, hcond⟩ := hcheck.2 e he
  obtain ⟨n, m, hn, hm, hagree, -⟩ := (emitted_agree_iff 2 (by decide)
    ⟨146, by decide, by decide⟩ true 1 _ e he hfirst hll).mpr hcond
  exact ⟨n, m, hn, hm, hagree⟩

/-- In packets of 146 bytes a block of fifty is two frames. The binary parser
sees the frames flag, the OSC parser that of a stream message; and the OSC parser
counts one frame in an xrun block, which has none. -/
theorem osc_and_binary_differ :
    let r := [Action.setSinks [⟨1, 5, 0, [], by decide, by decide, by decide⟩],
      .makeNewStream none, .sendBlock ⟨0, 0, 0, 0, [], List.replicate 50 7, by decide, by decide,
        by decide, by decide⟩, .sendXrun].foldl Run.step
          (Run.start 2 (by decide) ⟨146, by decide, by decide⟩ true 1)
    (∀ e ∈ r.emitted, e.resent = false ∧
      hasBit e.packet.flags kAooBinMsgDataLowLatency = false) ∧
    (r.emitted.map fun e => ((sendPacketOsc e.sink 2 e.packet).bind parseData).map fun p =>
      (p.2.2.flags, p.2.2.numFrames)) = [some (4, 2), some (4, 2), some (8, 1)] ∧
    (r.emitted.map fun e => ((sendPacketBin e.sink 2 e.packet).bind parseData).map fun p =>
      (p.2.2.flags, p.2.2.numFrames)) = [some (2, 2), some (2, 2), some (8, 0)] ∧
    ¬ ∀ e ∈ r.emitted, ∃ n m,
      (sendPacketOsc e.sink 2 e.packet).bind parseData = some (e.sink.id, 2, n) ∧
      (sendPacketBin e.sink 2 e.packet).bind parseData = some (e.sink.id, 2, m) ∧ Agree n m := by
  intro r
  refine ⟨by decide +kernel, by decide +kernel, by decide +kernel, fun hall => ?_⟩
  have hdiffer : ∃ e ∈ r.emitted,
      ((sendPacketOsc e.sink 2 e.packet).bind parseData).map (fun p => p.2.2.flags) = some 4 ∧
      ((sendPacketBin e.sink 2 e.packet).bind parseData).map (fun p => p.2.2.flags) = some 2 := by
    decide +kernel
  obtain ⟨e, he, hosc, hbin⟩ := hdiffer
  obtain ⟨n, m, hn, hm, hagree⟩ := hall e he
  rw [hn, Option.map_some, Option.some.injEq] at hosc
  rw [hm, Option.map_some, Option.some.injEq] at hbin
  have hflags : n.flags = m.flags := hagree.flags
  rw [hosc, hbin] at hflags
  exact absurd hflags (by decide)

end Aoo.Stream
