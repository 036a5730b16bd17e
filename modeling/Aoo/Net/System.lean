import Mathlib.Logic.Function.Basic
import Aoo.Net.Sizes

/-!
# Two peers and a network

Two peers send each other messages over a network that may lose, duplicate,
delay and reorder datagrams but not invent them: it keeps every datagram that
was ever sent, and a delivery step hands any of them to the other side.

The invariant has one part for each place a message can be. `SenderInv`: what a
peer keeps for resending comes from its log of sent messages. `Good`: every
datagram on the network is a frame of a logged message or an acknowledgement.
`ReceiverInv`: what a peer has begun to put together has the header of the
logged message with that sequence number, and what it has handed over so far is
a beginning of the log.

This module has the definitions and the sending half: what `send_message` and
`do_send` put on the network is good (`sendMessage_inv`, `doSend_inv`).
-/

namespace Aoo.Net

open Lib

/-! ## The system -/

/-- The messages a peer has sent, with the frame size limit they were sent with. -/
abbrev Log := List (Message × Nat)

/-- Both peers (by side), the datagrams each has sent, and three records that no
function of the program reads: the messages each has sent (by reliability), and
the frames of reliable messages each has received. -/
structure System where
  peer : Bool → Peer
  net : Bool → List Datagram
  sent : Bool → Bool → Log
  received : Bool → List MessageAck

/-- `sendMessage` and `doSend` happen at a side; `deliver x k` hands the `k`-th
datagram of the other side to side `x`. -/
inductive Action
  | sendMessage (side : Bool) (m : Message) (packetSize : PacketSize) (binary : Bool)
  | doSend (side : Bool) (due : List Int) (binary : Bool)
  | deliver (side : Bool) (k : Nat)

/-- The frame of a reliable message that a datagram brings to a peer. -/
def receivedFrames (peer : Peer) (d : Datagram) : List MessageAck :=
  if peer.addressed d then
    match messageOf d with
    | some (p, flags) =>
      if hasBit flags kAooMessageReliable then [⟨p.sequence, p.frameIndex⟩] else []
    | none => []
  else []

def System.start (groupId idA idB : Int) : System where
  peer x := if x then Peer.new groupId idA idB else Peer.new groupId idB idA
  net _ := []
  sent _ _ := []
  received _ := []

/-- A new state for one peer and the datagrams it has sent. -/
def System.update (s : System) (x : Bool) (p : Peer) (ds : List Datagram) : System :=
  { s with peer := Function.update s.peer x p, net := Function.update s.net x (s.net x ++ ds) }

/-- The log with one more message. -/
def addToLog (sent : Bool → Log) (m : Message) (ms : Nat) : Bool → Log :=
  Function.update sent m.reliable (sent m.reliable ++ [(m, ms)])

def step (s : System) : Action → Except Fault System
  | .sendMessage x m packetSize binary =>
    match sendMessage (s.peer x) m packetSize binary with
    | .error e => .error e
    | .ok (p, ds) => .ok { s.update x p ds with
        sent := Function.update s.sent x (addToLog (s.sent x) m (maxsize packetSize binary)) }
  | .doSend x due binary =>
    match doSend (s.peer x) due binary with
    | .error e => .error e
    | .ok (p, ds) => .ok (s.update x p ds)
  | .deliver x k =>
    match (s.net !x)[k]? with
    | none => .ok s
    | some d =>
      match handlePacket (s.peer x) d with
      | .error e => .error e
      | .ok p => .ok { s.update x p [] with
          received := Function.update s.received x (s.received x ++ receivedFrames (s.peer x) d) }

/-- Sequence number, type and time tag of the reliable messages that a peer has
handed to its event handler. -/
def delivered (p : Peer) : List (Int × Int × Nat) :=
  p.events.filterMap fun e => e.sequence.map fun q => (q, e.type, e.tt)

/-- The same for the reliable messages that a side has sent. -/
def sentBy (s : System) (x : Bool) : List (Int × Int × Nat) :=
  (s.sent x true).mapIdx fun i e => ((i : Int), e.1.data.type, e.1.tt)

/-! ## The invariant -/

/-- An acknowledgement that a peer can take in. -/
structure AckOk (a : MessageAck) : Prop where
  index : FrameIndexOk a.frameIndex
  seq : 0 ≤ a.sequence ∧ a.sequence < 2147483648

/-- The packet is, at the receiver, a frame of the logged message `m`. -/
def FrameFrom (sent : Bool → Log) (p : MessagePacket) (flags : Nat) (m : Message)
    (ms q i : Nat) : Prop :=
  (sent m.reliable)[q]? = some (m, ms) ∧ hasBit flags kAooMessageReliable = m.reliable ∧
    ∃ o l p₀, p = p₀.received ∧ FrameOf m ms q i o l p₀

/-- A datagram that came from a peer with this log. -/
structure Good (sent : Bool → Log) (d : Datagram) : Prop where
  message : ∀ p flags, messageOf d = some (p, flags) → ∃ m ms q i, FrameFrom sent p flags m ms q i
  acks : ∀ a ∈ acksOf d, AckOk a
  type : ∀ data, d = .bin data → binmsgCmd data = kAooBinMsgCmdMessage →
    TypeFieldOk (data.drop (binmsgHeadersize data))
  count : ∀ data, d = .bin data → binmsgCmd data = kAooBinMsgCmdAck →
    AckCountOk (data.drop (binmsgHeadersize data))

/-- Messages in the log can be sent and numbered. -/
structure LogOk (sent : Bool → Log) : Prop where
  entry : ∀ r m ms, (m, ms) ∈ sent r →
    m.reliable = r ∧ 0 < ms ∧ ms ≤ 4096 ∧ numFrames m.data.data.length ms ≤ 256
  count : ∀ r, (sent r).length ≤ 2147483648

/-- The sending half of a peer. -/
structure SenderInv (p : Peer) (sent : Bool → Log) : Prop where
  reliable : p.nextSequenceReliable = (sent true).length
  unreliable : p.nextSequenceUnreliable = (sent false).length
  log : LogOk sent
  buffer : ∀ sm ∈ p.sendBuffer, ∃ q m ms F, (sent true)[q]? = some (m, ms) ∧
    sm = { sentMessage m q ms with frames := F }
  acks : ∀ a ∈ p.receivedAcks, AckOk a

/-- The receiving half of a peer, against the log of the other side. -/
structure ReceiverInv (p : Peer) (sent : Bool → Log) : Prop where
  inv : PeerInv p
  stored : ∀ q : Int, p.receiveBuffer.lastPopped < q → (p.receiveBuffer.msgAt q).data ≠ none →
    ∃ (n : Nat) (m : Message) (ms : Nat), q = n ∧ (sent true)[n]? = some (m, ms) ∧
      HeaderOf m ms (p.receiveBuffer.msgAt q)
  current : (p.currentMsg.sequence = -1 ∧ p.currentMsg.data = none) ∨
    ∃ (n : Nat) (m : Message) (ms : Nat), p.currentMsg.sequence = n ∧
      (sent false)[n]? = some (m, ms) ∧ HeaderOf m ms p.currentMsg ∧ p.currentMsg.data ≠ none
  acks : ∀ a ∈ p.sendAcks, AckOk a
  count : ((delivered p).length : Int) = p.receiveBuffer.lastPopped + 1
  order : ∀ (i : Nat) t, (delivered p)[i]? = some t →
    ∃ m ms, (sent true)[i]? = some (m, ms) ∧ t = ((i : Int), m.data.type, m.tt)

/-- The invariant of the system. -/
def Inv (s : System) : Prop :=
  ∀ x, SenderInv (s.peer x) (s.sent x) ∧ (∀ d ∈ s.net x, Good (s.sent x) d) ∧
    ReceiverInv (s.peer x) (s.sent !x)

/-! ## Growing logs -/

/-- `sent'` extends `sent`. -/
def Grows (sent sent' : Bool → Log) : Prop :=
  ∀ (r : Bool) (q : Nat) (e : Message × Nat), (sent r)[q]? = some e → (sent' r)[q]? = some e

/-- A sent message is added to the log. -/
theorem grows_addToLog (sent : Bool → Log) (m : Message) (ms : Nat) :
    Grows sent (addToLog sent m ms) := by
  intro r q e h
  by_cases hr : r = m.reliable
  · rw [addToLog, hr, Function.update_self]
    rw [hr] at h
    obtain ⟨hlt, -⟩ := List.getElem?_eq_some_iff.mp h
    rw [List.getElem?_append_left hlt]
    exact h
  · rw [addToLog, Function.update_of_ne hr]
    exact h

/-- A datagram stays good when more is sent. -/
theorem Good.mono {sent sent' : Bool → Log} {d : Datagram} (hg : Grows sent sent')
    (h : Good sent d) : Good sent' d := by
  refine ⟨fun p flags hp => ?_, h.acks, h.type, h.count⟩
  obtain ⟨m, ms, q, i, hlog, hrest⟩ := h.message p flags hp
  exact ⟨m, ms, q, i, hg _ _ _ hlog, hrest⟩

/-- So does what has been received. -/
theorem ReceiverInv.mono {p : Peer} {sent sent' : Bool → Log} (hg : Grows sent sent')
    (h : ReceiverInv p sent) : ReceiverInv p sent' := by
  refine ⟨h.inv, fun q hq hd => ?_, ?_, h.acks, h.count, fun i t ht => ?_⟩
  · obtain ⟨n, m, ms, hn, hlog, hh⟩ := h.stored q hq hd
    exact ⟨n, m, ms, hn, hg _ _ _ hlog, hh⟩
  · rcases h.current with hc | ⟨n, m, ms, hn, hlog, hh⟩
    · exact Or.inl hc
    · exact Or.inr ⟨n, m, ms, hn, hg _ _ _ hlog, hh⟩
  · obtain ⟨m, ms, hlog, ht⟩ := h.order i t ht
    exact ⟨m, ms, hg _ _ _ hlog, ht⟩

/-! ## Datagrams that peers send -/

/-- Sequence numbers stay below 2^31. -/
theorem LogOk.seq_lt {sent : Bool → Log} (h : LogOk sent) {r : Bool} {q : Nat} {e : Message × Nat}
    (hq : (sent r)[q]? = some e) : q < 2147483648 := by
  obtain ⟨hlt, -⟩ := List.getElem?_eq_some_iff.mp hq
  have := h.count r
  omega

/-- What the receiver reads in a binary message. -/
theorem messageOf_sendPacketBin {groupId localId : Int} {p : MessagePacket} {d : Datagram}
    (hwire : p.Wire) (h : sendPacketBin groupId localId p = some d) :
    ∃ data, d = .bin data ∧ binmsgCmd data = kAooBinMsgCmdMessage ∧
      parseMessageBin (data.drop (binmsgHeadersize data)) =
        .ok (some (p.received, p.binFlags)) := by
  rw [sendPacketBin] at h
  split at h
  next hfit =>
    cases h
    obtain ⟨-, -, hcmd, -, hdrop⟩ := binmsgWriteHeader_append
      (show 12 ≤ AOO_MAX_PACKET_SIZE by decide) .peer
      (show kAooBinMsgCmdMessage < 2 by decide) groupId localId p.bytes
    have hlen : p.data.length < 65536 := by
      simp only [List.length_append, MessagePacket.bytes, AOO_MAX_PACKET_SIZE] at hfit
      omega
    exact ⟨_, rfl, hcmd, by rw [hdrop]; exact parseMessageBin_bytes hwire hlen⟩
  next => cases h

/-- A message datagram holds no acknowledgements. -/
theorem acksOf_sendPacket {groupId localId : Int} {p : MessagePacket} {binary : Bool}
    {d : Datagram} (hwire : p.Wire)
    (h : (if binary then sendPacketBin groupId localId p else sendPacketOsc groupId localId p) =
      some d) : acksOf d = [] := by
  cases binary with
  | true =>
    obtain ⟨data, rfl, hcmd, -⟩ := messageOf_sendPacketBin hwire h
    rw [acksOf, if_neg (by rw [hcmd]; decide)]
  | false =>
    simp only [Bool.false_eq_true, if_false, sendPacketOsc] at h
    split at h
    next =>
      cases h
      simp [acksOf]
    next => cases h

/-- Frames of logged messages make good datagrams. -/
theorem good_of_frame {sent : Bool → Log} {m : Message} {ms q i o l : Nat} {p : MessagePacket}
    {groupId localId : Int} {binary : Bool} {d : Datagram} (hlog : LogOk sent)
    (hq : (sent m.reliable)[q]? = some (m, ms)) (hf : FrameOf m ms q i o l p)
    (hrel : p.reliable = m.reliable)
    (hd : (if binary then sendPacketBin groupId localId p else sendPacketOsc groupId localId p) =
      some d) : Good sent d ∧ acksOf d = [] := by
  obtain ⟨-, hms0, hms, hn⟩ := hlog.entry _ m ms (List.mem_of_getElem? hq)
  have hwire := hf.wire hms0 (size_lt_of_frames ⟨hms0, hms⟩ hn) (hlog.seq_lt hq)
  have hnil := acksOf_sendPacket hwire hd
  have hacks : ∀ a ∈ acksOf d, AckOk a := by
    intro a ha
    rw [hnil] at ha
    cases ha
  refine ⟨?_, hnil⟩
  cases binary with
  | true =>
    obtain ⟨data, rfl, hcmd, hparse⟩ := messageOf_sendPacketBin hwire hd
    refine ⟨fun p' flags hp => ?_, hacks, ?_, ?_⟩
    · rw [messageOf, if_pos hcmd, hparse] at hp
      cases hp
      exact ⟨m, ms, q, i, hq, by rw [hasBit_binFlags, hrel], o, l, p, rfl, hf⟩
    · rintro _ ⟨⟩ -
      exact (parseMessageBin_ok_iff _).mp ⟨_, hparse⟩
    · rintro _ ⟨⟩ hc
      rw [hcmd] at hc
      exact absurd hc (by decide)
  | false =>
    simp only [Bool.false_eq_true, if_false, sendPacketOsc] at hd
    split at hd
    next =>
      cases hd
      refine ⟨fun p' flags hp => ?_, hacks, by rintro _ ⟨⟩, by rintro _ ⟨⟩⟩
      simp only [messageOf, if_true, List.drop_succ_cons, List.drop_zero,
        parseMessageOsc_args] at hp
      split at hp
      next => cases hp
      next =>
        cases hp
        refine ⟨m, ms, q, i, hq, ?_, o, l, p, rfl, hf⟩
        rw [← hrel]
        cases p.reliable <;> decide
    next => cases hd

/-- An ack datagram holds the acknowledgement it was sent for, and no message. -/
theorem acksOf_sendAck (groupId localId : Int) (binary : Bool) {a : MessageAck} (ha : AckOk a) :
    acksOf (sendAck groupId localId binary a) = [a] ∧
      messageOf (sendAck groupId localId binary a) = none ∧
      ∀ data, sendAck groupId localId binary a = .bin data →
        binmsgCmd data = kAooBinMsgCmdAck ∧ AckCountOk (data.drop (binmsgHeadersize data)) := by
  have hidx := ha.index
  have hseq := ha.seq
  cases binary with
  | true =>
    simp only [sendAck, if_true]
    obtain ⟨-, -, hcmd, -, hdrop⟩ := binmsgWriteHeader_append
      (show 12 ≤ 64 by decide) .peer (show kAooBinMsgCmdAck < 2 by decide) groupId localId
      (int32Bytes 1 ++ (int32Bytes a.sequence ++ int32Bytes a.frameIndex))
    have hparse := @parseAckBin_bytes a (by omega) ⟨by have := hidx.1; omega, by
      have := hidx.2; omega⟩
    refine ⟨?_, ?_, ?_⟩
    · rw [acksOf, if_pos hcmd, hdrop, hparse]
      rfl
    · rw [messageOf, if_neg (by rw [hcmd]; decide)]
    · rintro _ ⟨⟩
      rw [hdrop]
      exact ⟨hcmd, (parseAckBin_ok_iff _).mp ⟨_, hparse⟩⟩
  | false =>
    simp only [sendAck, Bool.false_eq_true, if_false]
    refine ⟨by simp [acksOf, parseAckOsc], by simp [messageOf], ?_⟩
    rintro _ ⟨⟩

/-- Acknowledgements make good datagrams. -/
theorem good_of_ack (sent : Bool → Log) (groupId localId : Int) (binary : Bool) {a : MessageAck}
    (ha : AckOk a) : Good sent (sendAck groupId localId binary a) := by
  obtain ⟨hacks, hmsg, hcount⟩ := acksOf_sendAck groupId localId binary ha
  refine ⟨fun p flags hp => ?_, fun a' ha' => ?_, fun data hd hc => ?_, fun data hd _ => ?_⟩
  · rw [hmsg] at hp
    cases hp
  · rw [hacks, List.mem_singleton] at ha'
    rw [ha']
    exact ha
  · rw [(hcount data hd).1] at hc
    exact absurd hc (by decide)
  · exact (hcount data hd).2

/-- Each datagram carries one of the packets. -/
theorem mem_sendPackets {p : Peer} {binary : Bool} {packets : List MessagePacket}
    {ds : List Datagram} (h : sendPackets p binary packets = .ok ds) {d : Datagram} (hd : d ∈ ds) :
    ∃ packet ∈ packets, p.sendPacket binary packet = some d := by
  induction packets generalizing ds with
  | nil =>
    cases h
    cases hd
  | cons packet rest ih =>
    obtain ⟨d', ds', hd', hds, rfl⟩ := sendPackets_cons_ok.mp h
    rcases List.mem_cons.mp hd with rfl | hd
    · exact ⟨packet, List.mem_cons_self .., hd'⟩
    · obtain ⟨packet', hmem, hsent⟩ := ih hds hd
      exact ⟨packet', List.mem_cons_of_mem _ hmem, hsent⟩

/-- Each packet is a frame of the message. -/
theorem mem_messagePackets {m : Message} {seq : Int} {ms : Nat} {p : MessagePacket}
    (h : p ∈ messagePackets m seq ms) :
    ∃ i < wireFrames m.data.data.length ms, p = messagePacket m seq ms i := by
  rw [messagePackets] at h
  split at h
  next hn =>
    obtain ⟨i, hi, rfl⟩ := List.mem_map.mp h
    exact ⟨i, by have := List.mem_range.mp hi; unfold wireFrames; omega, rfl⟩
  next =>
    exact ⟨0, by unfold wireFrames; omega, List.mem_singleton.mp h⟩

/-! ## Steps of the sending half -/

/-- What `send_message` and `do_send` leave alone. -/
theorem ReceiverInv.of_eq {p p' : Peer} {sent : Bool → Log} (h : ReceiverInv p sent)
    (hb : p'.receiveBuffer = p.receiveBuffer) (hc : p'.currentMsg = p.currentMsg)
    (he : p'.events = p.events) (ha : ∀ a ∈ p'.sendAcks, a ∈ p.sendAcks) :
    ReceiverInv p' sent := by
  have hd : delivered p' = delivered p := by rw [delivered, he]; rfl
  refine ⟨⟨by rw [hb]; exact h.inv.receive, by rw [hc]; exact h.inv.current⟩, ?_, ?_, ?_, ?_, ?_⟩
  · rw [hb]
    exact h.stored
  · rw [hc]
    exact h.current
  · exact fun a hm => h.acks a (ha a hm)
  · rw [hd, hb]
    exact h.count
  · rw [hd]
    exact h.order

/-- The new message has the next number. -/
theorem addToLog_getElem? (sent : Bool → Log) (m : Message) (ms : Nat) :
    (addToLog sent m ms m.reliable)[(sent m.reliable).length]? = some (m, ms) := by
  rw [addToLog, Function.update_self, List.getElem?_append_right (Nat.le_refl _), Nat.sub_self]
  rfl

/-- The log stays in order while the numbers fit. -/
theorem logOk_addToLog {sent : Bool → Log} {m : Message} {ms : Nat} (h : LogOk sent)
    (hms : 0 < ms ∧ ms ≤ 4096) (hn : numFrames m.data.data.length ms ≤ 256)
    (hcount : (sent m.reliable).length + 1 ≤ 2147483648) : LogOk (addToLog sent m ms) := by
  refine ⟨fun r m' ms' hmem => ?_, fun r => ?_⟩
  · by_cases hr : r = m.reliable
    · subst hr
      rw [addToLog, Function.update_self, List.mem_append, List.mem_singleton] at hmem
      rcases hmem with hmem | heq
      · exact h.entry _ m' ms' hmem
      · cases heq
        exact ⟨rfl, hms.1, hms.2, hn⟩
    · rw [addToLog, Function.update_of_ne hr] at hmem
      exact h.entry r m' ms' hmem
  · by_cases hr : r = m.reliable
    · subst hr
      rw [addToLog, Function.update_self, List.length_append]
      exact hcount
    · rw [addToLog, Function.update_of_ne hr]
      exact h.count r

/-- `send_message` numbers the message, keeps it if it is reliable, and leaves the receiving half
alone. -/
theorem sendMessageFrames_inv {p : Peer} {sent : Bool → Log} {m : Message} {packetSize : PacketSize}
    {binary : Bool} (h : SenderInv p sent)
    (hn : numFrames m.data.data.length (maxsize packetSize binary) ≤ 256)
    (hcount : (sent m.reliable).length + 1 ≤ 2147483648) :
    ∃ p', sendMessageFrames p m packetSize binary =
        .ok (p', messagePackets m (sent m.reliable).length (maxsize packetSize binary)) ∧
      SenderInv p' (addToLog sent m (maxsize packetSize binary)) ∧
      p'.groupId = p.groupId ∧ p'.localId = p.localId ∧
      p'.receiveBuffer = p.receiveBuffer ∧ p'.currentMsg = p.currentMsg ∧
      p'.events = p.events ∧ p'.sendAcks = p.sendAcks := by
  have hms : 0 < maxsize packetSize binary ∧ maxsize packetSize binary ≤ 4096 :=
    ⟨maxsize_pos .., maxsize_le ..⟩
  have hlog := logOk_addToLog h.log hms hn hcount
  have hget := addToLog_getElem? sent m (maxsize packetSize binary)
  have hold : ∀ sm ∈ p.sendBuffer, ∃ q m' ms' F,
      (addToLog sent m (maxsize packetSize binary) true)[q]? = some (m', ms') ∧
        sm = { sentMessage m' q ms' with frames := F } := by
    intro sm hsm
    obtain ⟨q, m', ms', F, hq, hsm⟩ := h.buffer sm hsm
    exact ⟨q, m', ms', F, grows_addToLog sent m _ _ _ _ hq, hsm⟩
  rw [sendMessageFrames]
  by_cases hrel : m.reliable
  · have hseq : p.nextSequenceReliable = (sent m.reliable).length := by rw [h.reliable, hrel]
    rw [hrel] at hget
    simp only [if_pos hrel, SentMessage.new_eq _ _ _ _ hn, ← hseq]
    refine ⟨_, rfl, ⟨?_, ?_, hlog, ?_, h.acks⟩, rfl, rfl, rfl, rfl, rfl, rfl⟩
    · rw [addToLog, hrel, Function.update_self, List.length_append, h.reliable]
      push_cast
      rfl
    · rw [addToLog, hrel, Function.update_of_ne (by decide)]
      exact h.unreliable
    · intro sm hsm
      rcases List.mem_append.mp hsm with hsm | hsm
      · exact hold sm hsm
      · refine ⟨(sent true).length, m, maxsize packetSize binary,
          Finset.range (numFrames m.data.data.length (maxsize packetSize binary)), hget, ?_⟩
        rw [List.mem_singleton.mp hsm, h.reliable]
        rfl
  · have hrel : m.reliable = false := by simpa using hrel
    simp only [hrel, Bool.false_eq_true, if_false, ← h.unreliable]
    refine ⟨_, rfl, ⟨?_, ?_, hlog, hold, h.acks⟩, rfl, rfl, rfl, rfl, rfl, rfl⟩
    · rw [addToLog, hrel, Function.update_of_ne (by decide)]
      exact h.reliable
    · rw [addToLog, hrel, Function.update_self, List.length_append, h.unreliable]
      push_cast
      rfl

/-- A sent message is cut into packets. -/
theorem sendMessageFrames_packets {p p' : Peer} {m : Message} {packetSize : PacketSize}
    {binary : Bool} {packets : List MessagePacket}
    (h : sendMessageFrames p m packetSize binary = .ok (p', packets)) :
    ∃ seq : Int, packets = messagePackets m seq (maxsize packetSize binary) ∧
      p'.groupId = p.groupId ∧ p'.localId = p.localId := by
  rw [sendMessageFrames] at h
  dsimp only at h
  split at h
  next =>
    split at h
    next => cases h
    next =>
      cases h
      exact ⟨_, rfl, rfl, rfl⟩
  next =>
    cases h
    exact ⟨_, rfl, rfl, rfl⟩

/-- The largest packet of a message fits the buffer that it is written in. -/
def Peer.MessageFits (p : Peer) (m : Message) (packetSize : PacketSize) (binary : Bool) : Prop :=
  messageSize binary p.groupId p.localId
    (numFrames m.data.data.length (maxsize packetSize binary)) m.tt
    (min (maxsize packetSize binary) m.data.data.length) ≤ AOO_MAX_PACKET_SIZE

/-- All its datagrams fit or the send fails. -/
theorem sendPackets_message_iff {p p' : Peer} {m : Message} {packetSize : PacketSize}
    {binary : Bool} {seq : Int} (hgroup : p'.groupId = p.groupId) (hlocal : p'.localId = p.localId) :
    (∃ ds, sendPackets p' binary (messagePackets m seq (maxsize packetSize binary)) = .ok ds) ↔
      p.MessageFits m packetSize binary := by
  rw [sendPackets_ok_iff, hgroup, hlocal, forall_messagePackets_iff m seq (maxsize_pos ..)]
  exact Iff.rfl

/-- A sent message is what the sender keeps for resending. -/
theorem sendMessage_inv {p : Peer} {sent : Bool → Log} {m : Message} {packetSize : PacketSize}
    {binary : Bool} (h : SenderInv p sent)
    (hn : numFrames m.data.data.length (maxsize packetSize binary) ≤ 256)
    (hcount : (sent m.reliable).length + 1 ≤ 2147483648)
    (hfits : p.MessageFits m packetSize binary) :
    ∃ p' ds, sendMessage p m packetSize binary = .ok (p', ds) ∧
      SenderInv p' (addToLog sent m (maxsize packetSize binary)) ∧
      (∀ d ∈ ds, Good (addToLog sent m (maxsize packetSize binary)) d ∧ acksOf d = []) ∧
      p'.receiveBuffer = p.receiveBuffer ∧ p'.currentMsg = p.currentMsg ∧
      p'.events = p.events ∧ p'.sendAcks = p.sendAcks := by
  have hms : 0 < maxsize packetSize binary ∧ maxsize packetSize binary ≤ 4096 :=
    ⟨maxsize_pos .., maxsize_le ..⟩
  obtain ⟨p', hframes, hsender, hgroup, hlocal, hb, hc, he, ha⟩ := sendMessageFrames_inv h hn hcount
  obtain ⟨ds, hds⟩ := (sendPackets_message_iff hgroup hlocal).mpr hfits
  refine ⟨p', ds, sendMessage_ok.mpr ⟨_, hframes, hds⟩, hsender, fun d hd => ?_, hb, hc, he, ha⟩
  obtain ⟨packet, hmem, henc⟩ := mem_sendPackets hds hd
  obtain ⟨i, hi, rfl⟩ := mem_messagePackets hmem
  exact good_of_frame (logOk_addToLog h.log hms hn hcount)
    (addToLog_getElem? sent m (maxsize packetSize binary)) (messagePacket_frameOf m _ hi) rfl henc

/-- Acknowledgements change nothing but the frames that are outstanding, and
those only by the frames they name. -/
theorem handleIncomingAck_mem {ack : MessageAck} {buffer buffer' : List SentMessage}
    (hack : 0 ≤ ack.frameIndex) (h : handleIncomingAck ack buffer = .ok buffer')
    {sm : SentMessage} (hsm : sm ∈ buffer') :
    ∃ sm₀ ∈ buffer, ∃ F, sm = { sm₀ with frames := F } ∧
      ∀ i : Nat, i ∉ F → i ∉ sm₀.frames ∨ ack = ⟨sm₀.sequence, i⟩ := by
  induction buffer generalizing buffer' with
  | nil =>
    cases h
    cases hsm
  | cons m rest ih =>
    rw [handleIncomingAck] at h
    split at h
    next hseq =>
      rw [SentMessage.ackFrame] at h
      by_cases hidx : FrameIndexOk ack.frameIndex
      · rw [if_pos hidx] at h
        cases h
        rcases List.mem_cons.mp hsm with rfl | hsm
        · refine ⟨m, List.mem_cons_self .., _, rfl, fun i hi => ?_⟩
          rw [Finset.mem_erase, not_and_or, not_not] at hi
          rcases hi with rfl | hi
          · refine Or.inr ?_
            rw [hseq, Int.toNat_of_nonneg hack]
          · exact Or.inl hi
        · exact ⟨sm, List.mem_cons_of_mem _ hsm, sm.frames, rfl, fun i hi => Or.inl hi⟩
      · rw [if_neg hidx] at h
        cases h
    next =>
      split at h
      next rest' hr =>
        cases h
        rcases List.mem_cons.mp hsm with rfl | hsm
        · exact ⟨sm, List.mem_cons_self .., sm.frames, rfl, fun i hi => Or.inl hi⟩
        · obtain ⟨sm₀, hmem, F, heq, hF⟩ := ih hr hsm
          exact ⟨sm₀, List.mem_cons_of_mem _ hmem, F, heq, hF⟩
      next => cases h

/-- Acks only mark frames as received. -/
theorem handleIncomingAcks_mem {acks : List MessageAck} {buffer buffer' : List SentMessage}
    (hacks : ∀ a ∈ acks, 0 ≤ a.frameIndex)
    (h : handleIncomingAcks acks buffer = .ok buffer') {sm : SentMessage} (hsm : sm ∈ buffer') :
    ∃ sm₀ ∈ buffer, ∃ F, sm = { sm₀ with frames := F } ∧
      ∀ i : Nat, i ∉ F → i ∉ sm₀.frames ∨ ⟨sm₀.sequence, i⟩ ∈ acks := by
  induction acks generalizing buffer with
  | nil =>
    cases h
    exact ⟨sm, hsm, sm.frames, rfl, fun i hi => Or.inl hi⟩
  | cons ack acks ih =>
    rw [handleIncomingAcks] at h
    split at h
    next buffer₁ h₁ =>
      obtain ⟨sm₁, hsm₁, F, rfl, hF⟩ := ih (fun a ha => hacks a (List.mem_cons_of_mem _ ha)) h
      obtain ⟨sm₀, hsm₀, F₀, rfl, hF₀⟩ :=
        handleIncomingAck_mem (hacks ack (List.mem_cons_self ..)) h₁ hsm₁
      refine ⟨sm₀, hsm₀, F, rfl, fun i hi => ?_⟩
      rcases hF i hi with hi | hi
      · rcases hF₀ i hi with hi | hi
        · exact Or.inl hi
        · exact Or.inr (by rw [← hi]; exact List.mem_cons_self ..)
      · exact Or.inr (List.mem_cons_of_mem _ hi)
    next => cases h

/-- The frames that `do_send` sends again fit the buffers they are written in: those of
messages that are due and that are still outstanding when the acknowledgements are taken in. -/
def Peer.ResentFits (p : Peer) (due : List Int) (binary : Bool) : Prop :=
  ∀ buffer, handleIncomingAcks p.receivedAcks p.sendBuffer = .ok buffer →
    ∀ sm ∈ buffer, sm.sequence ∈ due → ∀ i < sm.numFrames, i ∈ sm.frames →
      messageSize binary p.groupId p.localId sm.numFrames sm.tt (sm.getFrame i).length ≤
        AOO_MAX_PACKET_SIZE

/-- Resent frames fit or the send fails. -/
theorem sendPackets_resent_iff {p p' : Peer} {due : List Int} {binary : Bool}
    {packets : List MessagePacket} (h : doSendFrames p due = .ok (p', packets)) :
    (∃ ds, sendPackets p' binary packets = .ok ds) ↔ p.ResentFits due binary := by
  rw [doSendFrames] at h
  split at h
  next => cases h
  next buffer hbuf =>
    cases h
    rw [sendPackets_ok_iff]
    constructor
    · intro hfits buffer' hbuf' sm hsm hdue i hi houtstanding
      rw [hbuf] at hbuf'
      cases hbuf'
      have hkept : sm ∈ buffer.dropWhile (·.complete) := by
        rw [← List.takeWhile_append_dropWhile (p := (·.complete)) (l := buffer),
          List.mem_append] at hsm
        refine hsm.resolve_left fun hdone => ?_
        have hcomplete := List.all_eq_true.mp List.all_takeWhile sm hdone
        rw [SentMessage.complete, decide_eq_true_eq] at hcomplete
        rw [hcomplete] at houtstanding
        exact absurd houtstanding (Finset.notMem_empty i)
      refine hfits (resendPacket sm i) (List.mem_flatMap.mpr ⟨sm, ?_, ?_⟩)
      · exact List.mem_filter.mpr ⟨hkept, decide_eq_true hdue⟩
      · exact mem_resendPackets.mpr ⟨i, hi, houtstanding, rfl⟩
    · intro hfits packet hpacket
      obtain ⟨sm, hsm, hmem⟩ := List.mem_flatMap.mp hpacket
      obtain ⟨hkept, hdue⟩ := List.mem_filter.mp hsm
      obtain ⟨i, hi, houtstanding, rfl⟩ := mem_resendPackets.mp hmem
      exact hfits buffer hbuf sm ((List.dropWhile_sublist _).mem hkept) (of_decide_eq_true hdue) i
        hi houtstanding

/-- What is sent again, and what is acknowledged, was there before. -/
theorem doSend_inv {p : Peer} {sent sent₂ : Bool → Log} {due : List Int} {binary : Bool}
    (h : SenderInv p sent) (hr : ReceiverInv p sent₂) (hfits : p.ResentFits due binary) :
    ∃ p' ds, doSend p due binary = .ok (p', ds) ∧ SenderInv p' sent ∧
      (∀ d ∈ ds, Good sent d ∧ ∀ a ∈ acksOf d, a ∈ p.sendAcks) ∧ ReceiverInv p' sent₂ ∧
      p'.receiveBuffer = p.receiveBuffer ∧ p'.sendAcks = [] := by
  obtain ⟨buffer, hbuf⟩ := (handleIncomingAcks_ok_iff p.receivedAcks p.sendBuffer).mpr
    (fun ack hack _ => (h.acks ack hack).index.2)
  have hentry : ∀ sm ∈ buffer.dropWhile (·.complete), ∃ q m ms F,
      (sent true)[q]? = some (m, ms) ∧ sm = { sentMessage m q ms with frames := F } := by
    intro sm hsm
    obtain ⟨sm₀, hsm₀, F, rfl, -⟩ := handleIncomingAcks_mem
      (fun a ha => (h.acks a ha).index.1) hbuf ((List.dropWhile_sublist _).mem hsm)
    obtain ⟨q, m, ms, F₀, hq, rfl⟩ := h.buffer sm₀ hsm₀
    exact ⟨q, m, ms, F, hq, rfl⟩
  have hframes : doSendFrames p due = .ok
      ({ p with sendAcks := [], receivedAcks := [], sendBuffer := buffer.dropWhile (·.complete) },
        ((buffer.dropWhile (·.complete)).filter fun m => m.sequence ∈ due).flatMap resendPackets) := by
    rw [doSendFrames, hbuf]
  obtain ⟨ds, hds⟩ := (sendPackets_resent_iff hframes).mpr hfits
  refine ⟨_, _, doSend_ok.mpr ⟨_, ds, hframes, hds, rfl⟩,
    ⟨h.reliable, h.unreliable, h.log, hentry, fun a ha => by cases ha⟩, ?_,
    hr.of_eq rfl rfl rfl (fun a ha => by cases ha), rfl, rfl⟩
  intro d hd
  rcases List.mem_append.mp hd with hd | hd
  · obtain ⟨a, ha, rfl⟩ := List.mem_map.mp hd
    refine ⟨good_of_ack sent _ _ _ (hr.acks a ha), fun a' ha' => ?_⟩
    rw [(acksOf_sendAck _ _ _ (hr.acks a ha)).1, List.mem_singleton] at ha'
    rw [ha']
    exact ha
  · obtain ⟨packet, hmem, henc⟩ := mem_sendPackets hds hd
    obtain ⟨sm, hsm, hp⟩ := List.mem_flatMap.mp hmem
    obtain ⟨q, m, ms, F, hq, rfl⟩ := hentry sm (List.mem_of_mem_filter hsm)
    obtain ⟨i, hlt, -, rfl⟩ := mem_resendPackets.mp hp
    have hrel := (h.log.entry true m ms (List.mem_of_getElem? hq)).1
    obtain ⟨hgood, hnil⟩ := good_of_frame h.log (by rw [hrel]; exact hq)
      (resendPacket_frameOf q hlt) hrel.symm henc
    refine ⟨hgood, fun a ha => ?_⟩
    rw [hnil] at ha
    cases ha

end Aoo.Net
