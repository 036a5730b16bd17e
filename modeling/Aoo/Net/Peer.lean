import Aoo.Net.Packet

/-!
# Peers

The message part of `peer.cpp`: `send_message` cuts a message into frames and
sends them, `do_send` sends and collects acknowledgements and resends frames,
`do_handle_client_message` puts the frames of the other side together again and
hands over reliable messages in the order of their sequence numbers.

Pings and the handshake touch none of this state and are left out, and so is
the relay, which wraps a datagram and unwraps it again. The clock decides when
a message is resent (`need_resend`); here the sequence numbers that are due are
an argument of `doSend`.
-/

namespace Aoo.Net

open Lib

/-- `message`, as `Client::sendMessage` queues it. -/
structure Message where
  tt : Nat
  data : Metadata
  reliable : Bool
  tt_lt : tt < 18446744073709551616 := by decide
  deriving DecidableEq

/-- `peer_message_event`, with the sequence number of the message (`none` for an
unreliable one). The event itself does not carry it; it is recorded here so
that the order of events can be talked about. -/
structure PeerMessageEvent where
  groupId : Int
  userId : Int
  tt : Nat
  type : Int
  data : List (Option UInt8)
  sequence : Option Int
  deriving DecidableEq

/-- The state of `peer` that messages read and write. `events` collects what
the peer has given to `Client::send_event`. -/
structure Peer where
  groupId : Int
  userId : Int
  localId : Int
  binaryAck : Bool := false
  nextSequenceReliable : Int := 0
  nextSequenceUnreliable : Int := 0
  sendBuffer : List SentMessage := []
  receiveBuffer : MessageReceiveBuffer := {}
  currentMsg : ReceivedMessage := {}
  sendAcks : List MessageAck := []
  receivedAcks : List MessageAck := []
  events : List PeerMessageEvent := []
  deriving DecidableEq

/-- A peer before anything was sent or received. -/
def Peer.new (groupId userId localId : Int) : Peer := { groupId, userId, localId }

/-- A packet size that `Client::control` stores: at least
`kMessageHeaderSize + 64`, at most `AOO_MAX_PACKET_SIZE`. -/
structure PacketSize where
  val : Nat
  ge : 150 ≤ val
  le : val ≤ 4096
  deriving DecidableEq

/-- `kAooCtlSetPacketSize`: sizes outside the range are clamped. -/
def PacketSize.control (packetsize : Int) : PacketSize :=
  if h : packetsize < 150 then ⟨150, by decide, by decide⟩
  else if h' : packetsize > 4096 then ⟨4096, by decide, by decide⟩
  else ⟨packetsize.toNat, by omega, by omega⟩

/-! ## Sending -/

/-- The bytes of a message that go into one packet. -/
def maxsize (packetSize : PacketSize) (binary : Bool) : Nat :=
  packetSize.val - (if binary then kBinMessageHeaderSize else kMessageHeaderSize)

/-- The number of frames of `size` bytes: `d.quot + (d.rem != 0)`. -/
def numFrames (size maxsize : Nat) : Nat :=
  size / maxsize + (if size % maxsize ≠ 0 then 1 else 0)

/-- The frame size that is stored with a reliable message. -/
def frameSize (size maxsize : Nat) : Nat :=
  if size / maxsize ≠ 0 then maxsize else size % maxsize

/-- The packet that `send_message` builds for frame `i`. The last frame of
several gets the remainder of the division. -/
def messagePacket (m : Message) (sequence : Int) (maxsize : Nat) (i : Nat) : MessagePacket :=
  let data := m.data.data
  let n := numFrames data.length maxsize
  let frame :=
    if n > 1 then
      if i = n - 1 then data.drop (data.length - data.length % maxsize)
      else (data.drop (i * maxsize)).take maxsize
    else data
  ⟨m.data.type, frame, m.tt, sequence, data.length, n, i, m.reliable⟩

/-- The packets of a message; one without content is still sent as one packet. -/
def messagePackets (m : Message) (sequence : Int) (maxsize : Nat) : List MessagePacket :=
  let n := numFrames m.data.data.length maxsize
  if n > 1 then (List.range n).map (messagePacket m sequence maxsize)
  else [messagePacket m sequence maxsize 0]

/-- One packet, in the form that `binary` asks for. -/
def Peer.sendPacket (p : Peer) (binary : Bool) (packet : MessagePacket) : Option Datagram :=
  if binary then sendPacketBin p.groupId p.localId packet
  else sendPacketOsc p.groupId p.localId packet

/-- Send packets one after the other, up to one that does not fit the buffer of
`send_packet_bin` or `send_packet_osc`. -/
def sendPackets (p : Peer) (binary : Bool) : List MessagePacket → Except Fault (List Datagram)
  | [] => .ok []
  | packet :: rest =>
    match p.sendPacket binary packet with
    | none => .error (if binary then .overrun else .exception)
    | some d =>
      match sendPackets p binary rest with
      | .ok ds => .ok (d :: ds)
      | .error e => .error e

theorem sendPackets_cons_ok {p : Peer} {binary : Bool} {packet : MessagePacket}
    {rest : List MessagePacket} {ds : List Datagram} :
    sendPackets p binary (packet :: rest) = .ok ds ↔
      ∃ d ds', p.sendPacket binary packet = some d ∧ sendPackets p binary rest = .ok ds' ∧
        ds = d :: ds' := by
  rw [sendPackets]
  constructor
  · intro h
    split at h
    next => cases h
    next d hd =>
      split at h
      next ds' hds =>
        cases h
        exact ⟨d, ds', hd, hds, rfl⟩
      next => cases h
  · rintro ⟨d, ds', hd, hds, rfl⟩
    rw [hd, hds]

/-- `send_message` up to the sending of packets: the new state and the packets. -/
def sendMessageFrames (p : Peer) (m : Message) (packetSize : PacketSize) (binary : Bool) :
    Except Fault (Peer × List MessagePacket) :=
  let maxsize := maxsize packetSize binary
  let size := m.data.data.length
  if m.reliable then
    let sequence := p.nextSequenceReliable
    match SentMessage.new m.data m.tt sequence (numFrames size maxsize) (frameSize size maxsize) with
    | .error e => .error e
    | .ok sm =>
      let p := { p with
        nextSequenceReliable := sequence + 1
        sendBuffer := p.sendBuffer ++ [sm] }
      .ok (p, messagePackets m sequence maxsize)
  else
    let sequence := p.nextSequenceUnreliable
    let p := { p with nextSequenceUnreliable := sequence + 1 }
    .ok (p, messagePackets m sequence maxsize)

/-- `send_message`: the new state and the datagrams. -/
def sendMessage (p : Peer) (m : Message) (packetSize : PacketSize) (binary : Bool) :
    Except Fault (Peer × List Datagram) :=
  match sendMessageFrames p m packetSize binary with
  | .error e => .error e
  | .ok (p, packets) =>
    match sendPackets p binary packets with
    | .error e => .error e
    | .ok ds => .ok (p, ds)

theorem sendMessage_ok {p p' : Peer} {m : Message} {packetSize : PacketSize} {binary : Bool}
    {ds : List Datagram} :
    sendMessage p m packetSize binary = .ok (p', ds) ↔
      ∃ packets, sendMessageFrames p m packetSize binary = .ok (p', packets) ∧
        sendPackets p' binary packets = .ok ds := by
  rw [sendMessage]
  constructor
  · intro h
    split at h
    next => cases h
    next packets hframes =>
      split at h
      next => cases h
      next hds =>
        cases h
        exact ⟨packets, hframes, hds⟩
  · rintro ⟨packets, hframes, hds⟩
    rw [hframes]
    simp only [hds]

/-- Apply one incoming acknowledgement to the first message with its sequence
number; an outdated one is ignored. -/
def handleIncomingAck (ack : MessageAck) : List SentMessage → Except Fault (List SentMessage)
  | [] => .ok []
  | m :: rest =>
    if m.sequence = ack.sequence then
      if ack.frameIndex ≥ 0 then
        match m.ackFrame ack.frameIndex with
        | .ok m => .ok (m :: rest)
        | .error e => .error e
      else
        -- negative -> all frames
        .ok (m.ackAll :: rest)
    else
      match handleIncomingAck ack rest with
      | .ok rest => .ok (m :: rest)
      | .error e => .error e

def handleIncomingAcks : List MessageAck → List SentMessage → Except Fault (List SentMessage)
  | [], buffer => .ok buffer
  | ack :: acks, buffer =>
    match handleIncomingAck ack buffer with
    | .ok buffer => handleIncomingAcks acks buffer
    | .error e => .error e

/-- The packet with which `do_send` resends frame `i`. -/
def resendPacket (m : SentMessage) (i : Nat) : MessagePacket :=
  ⟨m.data.type, m.getFrame i, m.tt, m.sequence, m.data.data.length, m.numFrames, i, true⟩

/-- The packets for a message that is due: every frame that has not been
acknowledged. -/
def resendPackets (m : SentMessage) : List MessagePacket :=
  ((List.range m.numFrames).filter fun i => !m.hasFrame i).map (resendPacket m)

/-- `do_send` from step 4 on, up to the sending of packets: take in the
acknowledgements of the other side, drop acknowledged messages from the front,
resend what is due. -/
def doSendFrames (p : Peer) (due : List Int) : Except Fault (Peer × List MessagePacket) :=
  match handleIncomingAcks p.receivedAcks p.sendBuffer with
  | .error e => .error e
  | .ok buffer =>
    let buffer := buffer.dropWhile (·.complete)
    .ok ({ p with sendAcks := [], receivedAcks := [], sendBuffer := buffer },
      (buffer.filter fun m => m.sequence ∈ due).flatMap resendPackets)

/-- `do_send` from step 3 on, which sends acknowledgements. -/
def doSend (p : Peer) (due : List Int) (binary : Bool) : Except Fault (Peer × List Datagram) :=
  let acks := p.sendAcks.map (sendAck p.groupId p.localId p.binaryAck)
  match doSendFrames p due with
  | .error e => .error e
  | .ok (p, packets) =>
    match sendPackets p binary packets with
    | .error e => .error e
    | .ok ds => .ok (p, acks ++ ds)

theorem doSend_ok {p p' : Peer} {due : List Int} {binary : Bool} {ds : List Datagram} :
    doSend p due binary = .ok (p', ds) ↔
      ∃ packets ds', doSendFrames p due = .ok (p', packets) ∧
        sendPackets p' binary packets = .ok ds' ∧
        ds = p.sendAcks.map (sendAck p.groupId p.localId p.binaryAck) ++ ds' := by
  rw [doSend]
  constructor
  · intro h
    split at h
    next => cases h
    next packets hframes =>
      split at h
      next => cases h
      next ds' hds =>
        cases h
        exact ⟨packets, ds', hframes, hds, rfl⟩
  · rintro ⟨packets, ds', hframes, hds, rfl⟩
    rw [hframes]
    simp only [hds]

/-! ## Receiving -/

/-- The event for a message. -/
def Peer.event (p : Peer) (tt : Nat) (type : Int) (data : List (Option UInt8))
    (sequence : Option Int) : PeerMessageEvent :=
  ⟨p.groupId, p.userId, tt, type, data, sequence⟩

/-- Initialise a new message and add its first frame; the flag is false when
`init` has thrown. -/
def addNewMessage (p : MessagePacket) : Except Fault (ReceivedMessage × Bool) :=
  match ReceivedMessage.init { sequence := p.sequence } p.type p.tt p.numFrames p.totalSize with
  | .error e => .error e
  | .ok (m, false) => .ok (m, false)
  | .ok (m, true) =>
    match m.addFrame p.frameIndex p.data with
    | .ok m => .ok (m, true)
    | .error e => .error e

/-- Add a frame unless the message has it already. -/
def addMissingFrame (m : ReceivedMessage) (p : MessagePacket) : Except Fault ReceivedMessage :=
  match m.hasFrame p.frameIndex with
  | .error e => .error e
  | .ok true => .ok m -- ignore duplicate message
  | .ok false => m.addFrame p.frameIndex p.data

/-- Add a frame to a message that is in the buffer; the flag is false when
`init` has thrown. -/
def addToExisting (m : ReceivedMessage) (p : MessagePacket) :
    Except Fault (ReceivedMessage × Bool) :=
  let ready :=
    if m.placeholder then m.init p.type p.tt p.numFrames p.totalSize else .ok (m, true)
  match ready with
  | .error e => .error e
  | .ok (m, false) => .ok (m, false)
  | .ok (m, true) =>
    match addMissingFrame m p with
    | .ok m => .ok (m, true)
    | .error e => .error e

/-- The placeholders for skipped messages, from `onset` on. -/
def pushSkipped (b : MessageReceiveBuffer) (onset : Int) : Nat → MessageReceiveBuffer
  | 0 => b
  | n + 1 => pushSkipped (b.push { sequence := onset }) (onset + 1) n

/-- The part of `do_handle_client_message` that stores the frame of a reliable
message; the flag is false when `init` has thrown. -/
def storeFrame (b : MessageReceiveBuffer) (p : MessagePacket) :
    Except Fault (MessageReceiveBuffer × Bool) :=
  if p.sequence > b.lastPushed then
    -- check if we have skipped messages (sequence always starts at 0)
    let skipped := if b.lastPushed ≥ 0 then p.sequence - b.lastPushed - 1 else p.sequence
    let onset := if b.lastPushed ≥ 0 then b.lastPushed + 1 else 0
    match addNewMessage p with
    | .ok (m, ok) => .ok ((pushSkipped b onset skipped.toNat).push m, ok)
    | .error e => .error e
  else
    match b.find p.sequence with
    | none => .ok (b, true) -- could not find message
    | some i =>
      match addToExisting (b.data.getD i {}) p with
      | .ok (m, ok) => .ok (b.set i m, ok)
      | .error e => .error e

/-- `do_handle_client_message` -/
def doHandleClientMessage (peer : Peer) (p : MessagePacket) (flags : Nat) : Except Fault Peer :=
  if hasBit flags kAooMessageReliable then
    -- *** reliable message ***
    let ack : MessageAck := ⟨p.sequence, p.frameIndex⟩
    if p.sequence ≤ peer.receiveBuffer.lastPopped then
      -- outdated message, but don't forget to acknowledge!
      .ok { peer with sendAcks := peer.sendAcks ++ [ack] }
    else
      match storeFrame peer.receiveBuffer p with
      | .error e => .error e
      | .ok (b, false) => .ok { peer with receiveBuffer := b }
      | .ok (b, true) =>
        -- check for completed messages
        let (done, b) := b.popComplete b.data.length
        .ok { peer with
          receiveBuffer := b
          events := peer.events ++
            done.map fun m => peer.event m.tt m.type (m.data.getD []) (some m.sequence)
          sendAcks := peer.sendAcks ++ [ack] }
  else if p.numFrames > 1 then
    -- *** unreliable message ***: try to reassemble message
    let ready : Except Fault (ReceivedMessage × Bool) :=
      if peer.currentMsg.sequence ≠ p.sequence then
        ReceivedMessage.init { sequence := p.sequence } p.type p.tt p.numFrames p.totalSize
      else .ok (peer.currentMsg, true)
    match ready with
    | .error e => .error e
    | .ok (m, false) => .ok { peer with currentMsg := m }
    | .ok (m, true) =>
      match m.addFrame p.frameIndex p.data with
      | .error e => .error e
      | .ok m =>
        .ok { peer with
          currentMsg := m
          events := peer.events ++
            if m.complete then [peer.event p.tt m.type (m.data.getD []) none] else [] }
  else
    -- output immediately
    .ok { peer with
      events := peer.events ++ [peer.event p.tt p.type (p.data.map some) none] }

/-- `handle_bin_message` -/
def handleBinMessage (peer : Peer) (data : List UInt8) (onset : Nat) : Except Fault Peer :=
  if binmsgCmd data = kAooBinMsgCmdMessage then
    match parseMessageBin (data.drop onset) with
    | .error e => .error e
    | .ok none => .ok peer
    | .ok (some (p, flags)) => doHandleClientMessage { peer with binaryAck := true } p flags
  else if binmsgCmd data = kAooBinMsgCmdAck then
    match parseAckBin (data.drop onset) with
    | .error e => .error e
    | .ok acks => .ok { peer with receivedAcks := peer.receivedAcks ++ acks }
  else .ok peer

/-- `handle_osc_message` for the patterns `/msg` and `/ack`; `args` starts behind
the two ids. -/
def handleOscMessage (peer : Peer) (address : OscAddress) (args : List OscArg) :
    Except Fault Peer :=
  match address with
  | .peerMessage =>
    match parseMessageOsc args with
    | none => .ok peer
    | some (p, flags) => doHandleClientMessage { peer with binaryAck := false } p flags
  | .peerAck => .ok { peer with receivedAcks := peer.receivedAcks ++ parseAckOsc args }
  | _ => .ok peer

/-- The checks of `Client::handlePacket` and of the lookup that finds the peer
with the group and user id in the datagram. -/
def Peer.addressed (peer : Peer) : Datagram → Bool
  | .bin data =>
    binmsgCheck data && decide (0 < binmsgHeadersize data) &&
      decide (binmsgType data = AooMsgType.peer.toNat) &&
      decide (binmsgTo data = peer.groupId) && decide (binmsgFrom data = peer.userId)
  | .osc msg =>
    match msg.args with
    | .int32 group :: .int32 user :: _ => decide (group = peer.groupId ∧ user = peer.userId)
    | _ => false

/-- A datagram reaches the peer it is addressed to; any other is ignored. -/
def handlePacket (peer : Peer) (d : Datagram) : Except Fault Peer :=
  if peer.addressed d then
    match d with
    | .bin data => handleBinMessage peer data (binmsgHeadersize data)
    | .osc msg => handleOscMessage peer msg.address (msg.args.drop 2)
  else .ok peer

/-- The packet in a message datagram, with its flags, as the parser of its
format reads it. -/
def messageOf : Datagram → Option (MessagePacket × Nat)
  | .bin data =>
    if binmsgCmd data = kAooBinMsgCmdMessage then
      (parseMessageBin (data.drop (binmsgHeadersize data))).toOption.join
    else none
  | .osc msg => if msg.address = .peerMessage then parseMessageOsc (msg.args.drop 2) else none

/-- The acknowledgements in an ack datagram. -/
def acksOf : Datagram → List MessageAck
  | .bin data =>
    if binmsgCmd data = kAooBinMsgCmdAck then
      (parseAckBin (data.drop (binmsgHeadersize data))).toOption.getD []
    else []
  | .osc msg => if msg.address = .peerAck then parseAckOsc (msg.args.drop 2) else []

/-- The format that acknowledgements of a message datagram will have. -/
def binaryOf : Datagram → Bool
  | .bin _ => true
  | .osc _ => false

/-! ## What a datagram can do -/

/-- A datagram that is handled without a fault is ignored, or is handled as a
message, or adds the acknowledgements it holds to the queue. -/
theorem handlePacket_cases {peer peer' : Peer} {d : Datagram}
    (h : handlePacket peer d = .ok peer') :
    (peer.addressed d = false ∧ peer' = peer) ∨
    (peer.addressed d = true ∧ ∃ p flags, messageOf d = some (p, flags) ∧
      doHandleClientMessage { peer with binaryAck := binaryOf d } p flags = .ok peer') ∨
    (peer.addressed d = true ∧ messageOf d = none ∧
      peer' = { peer with receivedAcks := peer.receivedAcks ++ acksOf d }) := by
  unfold handlePacket at h
  split at h
  next haddr =>
    refine Or.inr ?_
    cases d with
    | bin data =>
      simp only [handleBinMessage] at h
      simp only [messageOf, acksOf, binaryOf]
      split at h
      next hcmd =>
        have hack : binmsgCmd data ≠ kAooBinMsgCmdAck := by
          rw [hcmd]
          decide
        simp only [if_pos hcmd, if_neg hack]
        split at h
        next => cases h
        next hp =>
          cases h
          exact Or.inr ⟨haddr, by simp [hp, Except.toOption]⟩
        next p flags hp =>
          exact Or.inl ⟨haddr, p, flags, by simp [hp, Except.toOption], h⟩
      next hcmd =>
        simp only [if_neg hcmd]
        refine Or.inr ⟨haddr, trivial, ?_⟩
        split at h
        next hack =>
          split at h
          next => cases h
          next acks ha =>
            cases h
            simp [hack, ha, Except.toOption]
        next hack =>
          cases h
          simp [hack]
    | osc msg =>
      obtain ⟨address, args⟩ := msg
      cases address with
      | peerMessage =>
        simp only [handleOscMessage] at h
        split at h
        next hp =>
          cases h
          exact Or.inr ⟨haddr, by simp [messageOf, hp], by simp [acksOf]⟩
        next p flags hp =>
          exact Or.inl ⟨haddr, p, flags, by simp [messageOf, hp], h⟩
      | peerAck =>
        cases h
        exact Or.inr ⟨haddr, by simp [messageOf], by simp [acksOf]⟩
      | _ =>
        cases h
        exact Or.inr ⟨haddr, by simp [messageOf], by simp [acksOf]⟩
  next haddr =>
    cases h
    exact Or.inl ⟨by simpa using haddr, rfl⟩

end Aoo.Net
