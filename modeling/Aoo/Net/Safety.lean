import Aoo.Lib.Run
import Aoo.Net.Receive

/-!
# Which traffic a peer survives

A peer takes frame counts, frame indices, sizes and ack counts from the network
as they come. This module says exactly which packets it can handle without
reading behind the packet, copying outside a message buffer or indexing outside
a frame bitset: `StepSafe` is a condition on the numbers in the packet and, for
a message that is already in the buffer, on the numbers of its first frame.

Each function gets one lemma of the form "no fault iff the condition holds"
(`addToMessage_ok_iff`, `parseMessageBin_ok_iff`, `parseAckBin_ok_iff`,
`handleIncomingAcks_ok_iff`); `peerStep_ok_iff` collects them, and
`run_ok_iff_safe` is the statement about whole runs.
-/

namespace Aoo.Net

open Lib

/-! ## Frames -/

/-- A frame of `n` bytes lies inside a message of `total` bytes. -/
def FrameInside (total numFrames index : Int) (n : Nat) : Prop :=
  FrameIndexOk index ∧
    (n = 0 ∨ if index = numFrames - 1 then (n : Int) ≤ total else (index + 1) * n ≤ total)

/-- Where the data are there, a frame fits if it lies inside the message. -/
theorem frameFits_iff {m : ReceivedMessage} {index : Int} {n : Nat} (hm : m.Sized)
    (hd : m.data ≠ none) :
    m.FrameFits index n ↔ FrameInside m.size m.numFrames index n := by
  obtain ⟨d, hd⟩ := Option.ne_none_iff_exists'.mp hd
  have hsize := hm.some d hd
  rw [ReceivedMessage.FrameFits, FrameInside, hd, copyFits_some, and_comm,
    ReceivedMessage.frameOnset]
  refine and_congr_right fun hidx => or_congr_right ?_
  split
  next => omega
  next =>
    have hmul : 0 ≤ index * n := Int.mul_nonneg hidx.1 (by omega)
    have hexp : (index + 1) * (n : Int) = index * n + n := by ring
    omega

/-- Without data only an empty frame fits. -/
theorem frameFits_none {m : ReceivedMessage} {index : Int} {n : Nat} (hd : m.data = none) :
    m.FrameFits index n ↔ n = 0 ∧ FrameIndexOk index := by
  rw [ReceivedMessage.FrameFits, hd]
  refine and_congr_left fun _ => ⟨fun h => ?_, Or.inl⟩
  rcases h with h | ⟨_, h, _⟩
  · exact h
  · cases h

/-- The first frame of a message fits the message it announces. A negative size
makes the allocation throw before anything is written. -/
def NewSafe (p : MessagePacket) : Prop :=
  p.totalSize < 0 ∨
    (p.numFrames ≤ 256 ∧ FrameInside p.totalSize p.numFrames p.frameIndex p.data.length)

/-- As `NewSafe`, for a message that was skipped before: there a frame index
from `num_frames` on counts as received and is ignored. -/
def PlaceholderSafe (p : MessagePacket) : Prop :=
  p.totalSize < 0 ∨
    (p.numFrames ≤ 256 ∧ FrameIndexOk p.frameIndex ∧
      (p.frameIndex < p.numFrames →
        FrameInside p.totalSize p.numFrames p.frameIndex p.data.length))

/-- A frame of a message that is in the buffer fits the size and the frame count
that the first frame announced, unless the frame is there already. -/
def StoredSafe (m : ReceivedMessage) (p : MessagePacket) : Prop :=
  FrameIndexOk p.frameIndex ∧
    (p.frameIndex.toNat ∈ m.frames → FrameInside m.size m.numFrames p.frameIndex p.data.length)

/-- The condition on a frame of a reliable message that is not outdated. -/
def ReliableSafe (b : MessageReceiveBuffer) (p : MessagePacket) : Prop :=
  if p.sequence > b.lastPushed then NewSafe p
  else if (b.msgAt p.sequence).placeholder then PlaceholderSafe p
  else StoredSafe (b.msgAt p.sequence) p

/-- `init` allocates as many bytes as it notes. -/
theorem initialised_sized (m : ReceivedMessage) (type : Int) (tt : Nat) (n : Int) {size : Int}
    (hsize : 0 ≤ size) :
    (m.initialised type tt n size (List.replicate size.toNat none)).Sized := by
  refine ⟨fun hd => by simp [ReceivedMessage.initialised] at hd, fun d hd => ?_⟩
  cases hd
  simp only [ReceivedMessage.initialised, List.length_replicate]
  omega

/-- A frame fits a new message if it lies inside what its own packet announces. -/
theorem initialised_fits_iff (m : ReceivedMessage) (p : MessagePacket) (hsize : 0 ≤ p.totalSize) :
    (m.initialised p.type p.tt p.numFrames p.totalSize
        (List.replicate p.totalSize.toNat none)).FrameFits p.frameIndex p.data.length ↔
      FrameInside p.totalSize p.numFrames p.frameIndex p.data.length :=
  frameFits_iff (initialised_sized m p.type p.tt p.numFrames hsize)
    (by simp [ReceivedMessage.initialised])

/-- The first packet of a message does no harm if it is safe. -/
theorem addNewMessage_ok_iff (p : MessagePacket) :
    (∃ r, addNewMessage p = .ok r) ↔ NewSafe p := by
  rw [addNewMessage, NewSafe]
  by_cases hsize : p.totalSize < 0
  · rw [ReceivedMessage.init_of_neg _ _ _ _ hsize]
    exact ⟨fun _ => Or.inl hsize, fun _ => ⟨_, rfl⟩⟩
  · by_cases hn : p.numFrames ≤ 256
    · rw [ReceivedMessage.init_eq _ _ _ (by omega) hn]
      have hfit := initialised_fits_iff { sequence := p.sequence } p (by omega)
      rw [← hfit, ← ReceivedMessage.addFrame_ok_iff]
      constructor
      · rintro ⟨r, hr⟩
        simp only at hr
        split at hr
        next m' ha => exact Or.inr ⟨hn, m', ha⟩
        next => cases hr
      · rintro (hneg | ⟨-, m', ha⟩)
        · exact absurd hneg hsize
        · simp only [ha]
          exact ⟨_, rfl⟩
    · rw [ReceivedMessage.init_of_gt _ _ _ (by omega) (by omega)]
      constructor
      · rintro ⟨r, hr⟩
        cases hr
      · rintro (hneg | ⟨hle, -⟩)
        · exact absurd hneg hsize
        · exact absurd hle hn

/-- The bitset is asked first; only a frame that is missing is copied. -/
theorem addMissingFrame_ok_iff (m : ReceivedMessage) (p : MessagePacket) :
    (∃ m', addMissingFrame m p = .ok m') ↔ FrameIndexOk p.frameIndex ∧
      (p.frameIndex.toNat ∈ m.frames → m.FrameFits p.frameIndex p.data.length) := by
  rw [addMissingFrame]
  by_cases hidx : FrameIndexOk p.frameIndex
  · rw [ReceivedMessage.hasFrame_eq hidx]
    by_cases hmem : p.frameIndex.toNat ∈ m.frames
    · simp only [hmem, not_true_eq_false, decide_false, hidx, forall_const, true_and]
      exact ReceivedMessage.addFrame_ok_iff
    · simp only [hmem, not_false_eq_true, decide_true, hidx, false_implies, and_self, iff_true]
      exact ⟨_, rfl⟩
  · rw [ReceivedMessage.hasFrame, if_neg hidx]
    constructor
    · rintro ⟨r, hr⟩
      cases hr
    · rintro ⟨h, -⟩
      exact absurd h hidx

/-- Behind `init` there is only the frame. -/
theorem addToExisting_of_ready {m m₁ : ReceivedMessage} {p : MessagePacket}
    (hready : (if m.placeholder then m.init p.type p.tt p.numFrames p.totalSize
      else .ok (m, true)) = .ok (m₁, true)) :
    (∃ r, addToExisting m p = .ok r) ↔ ∃ m', addMissingFrame m₁ p = .ok m' := by
  rw [addToExisting, hready]
  cases hadd : addMissingFrame m₁ p <;> simp [hadd]

/-- A placeholder takes the numbers of the packet, a message has its own. -/
theorem addToExisting_ok_iff {m : ReceivedMessage} (p : MessagePacket) (hm : m.Sized) :
    (∃ r, addToExisting m p = .ok r) ↔
      if m.placeholder then PlaceholderSafe p else StoredSafe m p := by
  by_cases hp : m.placeholder
  · rw [if_pos hp, PlaceholderSafe]
    have hnone : m.data = none := Option.isNone_iff_eq_none.mp hp
    by_cases hsize : p.totalSize < 0
    · rw [addToExisting, if_pos hp, ReceivedMessage.init_of_neg _ _ _ _ hsize]
      exact ⟨fun _ => Or.inl hsize, fun _ => ⟨_, rfl⟩⟩
    · by_cases hn : p.numFrames ≤ 256
      · have hinit := ReceivedMessage.init_eq m p.type p.tt (Int.not_lt.mp hsize) hn
        have hfit := initialised_fits_iff m p (by omega)
        refine (addToExisting_of_ready ((if_pos hp).trans hinit)).trans ?_
        rw [addMissingFrame_ok_iff, hfit, or_iff_right hsize]
        simp only [hn, true_and]
        refine and_congr_right fun hidx => imp_congr_left ?_
        have h0 := hidx.1
        simp only [ReceivedMessage.initialised, hm.none hnone, Finset.empty_union,
          Finset.mem_range]
        omega
      · rw [addToExisting, if_pos hp, ReceivedMessage.init_of_gt _ _ _ (by omega) (by omega)]
        constructor
        · rintro ⟨r, hr⟩
          cases hr
        · rintro (hneg | ⟨hle, -⟩)
          · exact absurd hneg hsize
          · exact absurd hle hn
  · rw [if_neg hp, StoredSafe]
    have hsome : m.data ≠ none := fun h => hp (by rw [ReceivedMessage.placeholder, h]; rfl)
    refine (addToExisting_of_ready (if_neg hp)).trans ?_
    rw [addMissingFrame_ok_iff, frameFits_iff hm hsome]

/-- A reliable packet is put where its sequence number says. -/
theorem addToMessage_ok_iff {b : MessageReceiveBuffer} {p : MessagePacket} (h : ReceiveInv b)
    (hpop : b.lastPopped < p.sequence) :
    (∃ r, addToMessage b p = .ok r) ↔ ReliableSafe b p := by
  rw [addToMessage, ReliableSafe]
  split
  next => exact addNewMessage_ok_iff p
  next => exact addToExisting_ok_iff p (msgAt_sized h hpop)

/-- The condition on a frame of an unreliable message: only messages of several
frames are put together, and they need not check for duplicates. -/
def UnreliableSafe (m : ReceivedMessage) (p : MessagePacket) : Prop :=
  p.numFrames ≤ 1 ∨
    if m.sequence ≠ p.sequence then NewSafe p
    else if m.placeholder then p.data.length = 0 ∧ FrameIndexOk p.frameIndex
    else FrameInside m.size m.numFrames p.frameIndex p.data.length

/-- The condition on a message packet that has been parsed. -/
def MessageSafe (peer : Peer) (p : MessagePacket) (flags : Nat) : Prop :=
  if hasBit flags kAooMessageReliable then
    p.sequence ≤ peer.receiveBuffer.lastPopped ∨ ReliableSafe peer.receiveBuffer p
  else UnreliableSafe peer.currentMsg p

/-- What every traffic preserves. -/
structure PeerInv (peer : Peer) : Prop where
  receive : ReceiveInv peer.receiveBuffer
  current : peer.currentMsg.Sized

/-- A packet of a message that was popped already is only acknowledged. -/
theorem doHandleClientMessage_ok_iff {peer : Peer} (h : PeerInv peer) (p : MessagePacket)
    (flags : Nat) :
    (∃ peer', doHandleClientMessage peer p flags = .ok peer') ↔ MessageSafe peer p flags := by
  rw [doHandleClientMessage, MessageSafe]
  by_cases hrel : hasBit flags kAooMessageReliable
  · rw [if_pos hrel, if_pos hrel]
    by_cases hold : p.sequence ≤ peer.receiveBuffer.lastPopped
    · rw [if_pos hold]
      exact ⟨fun _ => Or.inl hold, fun _ => ⟨_, rfl⟩⟩
    · rw [if_neg hold, or_iff_right hold, ← addToMessage_ok_iff h.receive (by omega)]
      obtain ⟨hok, herr⟩ := storeFrame_updated (p := p) h.receive (by omega)
      constructor
      · rintro ⟨peer', hp⟩
        cases hm : addToMessage peer.receiveBuffer p with
        | ok r => exact ⟨r, rfl⟩
        | error e =>
          rw [herr e hm] at hp
          cases hp
      · rintro ⟨⟨m, ok⟩, hm⟩
        obtain ⟨b', hb', -⟩ := hok m ok hm
        rw [hb']
        cases ok <;> exact ⟨_, rfl⟩
  · rw [if_neg hrel, if_neg hrel, UnreliableSafe]
    by_cases hmulti : p.numFrames > 1
    · rw [if_pos hmulti, or_iff_right (by omega)]
      by_cases hseq : peer.currentMsg.sequence ≠ p.sequence
      · rw [if_pos hseq, if_pos hseq, ← addNewMessage_ok_iff, addNewMessage]
        cases ReceivedMessage.init { sequence := p.sequence } p.type p.tt p.numFrames p.totalSize
          with
        | error e => simp
        | ok r =>
          obtain ⟨m, ok⟩ := r
          cases ok with
          | false => simp
          | true => cases hadd : m.addFrame p.frameIndex p.data <;> simp [hadd]
      · rw [if_neg hseq, if_neg hseq]
        have hfit : (∃ m', peer.currentMsg.addFrame p.frameIndex p.data = .ok m') ↔
            if peer.currentMsg.placeholder then p.data.length = 0 ∧ FrameIndexOk p.frameIndex
            else FrameInside peer.currentMsg.size peer.currentMsg.numFrames p.frameIndex
              p.data.length := by
          rw [ReceivedMessage.addFrame_ok_iff]
          split
          next hp => exact frameFits_none (Option.isNone_iff_eq_none.mp hp)
          next hp =>
            exact frameFits_iff h.current
              (fun hd => hp (by rw [ReceivedMessage.placeholder, hd]; rfl))
        rw [← hfit]
        cases hadd : peer.currentMsg.addFrame p.frameIndex p.data <;> simp [hadd]
    · rw [if_neg hmulti]
      exact ⟨fun _ => Or.inl (by omega), fun _ => ⟨_, rfl⟩⟩

/-- The buffers stay well formed, whatever the packet says. -/
theorem doHandleClientMessage_inv {peer peer' : Peer} {p : MessagePacket} {flags : Nat}
    (h : PeerInv peer) (hp : doHandleClientMessage peer p flags = .ok peer') : PeerInv peer' := by
  rw [doHandleClientMessage] at hp
  split at hp
  next =>
    split at hp
    next =>
      cases hp
      exact ⟨h.receive, h.current⟩
    next hold =>
      obtain ⟨hok, herr⟩ := storeFrame_updated (p := p) h.receive (by omega)
      cases hm : addToMessage peer.receiveBuffer p with
      | error e =>
        rw [herr e hm] at hp
        cases hp
      | ok r =>
        obtain ⟨m, ok⟩ := r
        obtain ⟨b', hb', hu⟩ := hok m ok hm
        rw [hb'] at hp
        cases ok with
        | false =>
          cases hp
          exact ⟨hu.inv, h.current⟩
        | true =>
          cases hp
          obtain ⟨k, hk, b'', heq, -, hinv, -⟩ := popComplete_spec hu.inv (Nat.le_refl _)
          refine ⟨?_, h.current⟩
          simp only [heq]
          exact hinv
  next =>
    split at hp
    next =>
      have hready : ∀ m ok, (if peer.currentMsg.sequence ≠ p.sequence then
          ReceivedMessage.init { sequence := p.sequence } p.type p.tt p.numFrames p.totalSize
          else .ok (peer.currentMsg, true)) = Except.ok (m, ok) → m.Sized := by
        intro m ok hi
        split at hi
        next => exact (init_sized (placeholder_sized _) rfl hi).1
        next =>
          cases hi
          exact h.current
      simp only at hp
      split at hp
      next => cases hp
      next m hi =>
        cases hp
        exact ⟨h.receive, hready _ _ hi⟩
      next m hi =>
        split at hp
        next => cases hp
        next m' ha =>
          cases hp
          exact ⟨h.receive, (addFrame_sized (hready _ _ hi) ha).1⟩
    next =>
      cases hp
      exact ⟨h.receive, h.current⟩

/-! ## Binary parsers -/

/-- Where the type field of a binary message starts, by its flags. -/
def typeOffset (bs : List UInt8) : Nat :=
  let flags := field 2 (bs.drop 4)
  8 + (if hasBit flags kAooBinMsgMessageFrames then 12 else 0) +
    (if hasBit flags kAooBinMsgMessageTimestamp then 8 else 0)

/-- The message is cut off before the type field, or the field is complete. -/
def TypeFieldOk (bs : List UInt8) : Prop :=
  bs.length < typeOffset bs ∨ typeOffset bs + 4 ≤ bs.length

/-- The binary parser reads inside the datagram if the type field is there. -/
theorem parseMessageBin_ok_iff (bs : List UInt8) :
    (∃ r, parseMessageBin bs = .ok r) ↔ TypeFieldOk bs := by
  simp only [parseMessageBin, TypeFieldOk, typeOffset, List.drop_drop]
  -- the four layouts; what is left to compare is the length
  cases hasBit (field 2 (bs.drop 4)) kAooBinMsgMessageFrames <;>
    cases hasBit (field 2 (bs.drop 4)) kAooBinMsgMessageTimestamp <;>
    simp only [Bool.false_and, Bool.true_and, Bool.false_eq_true, if_false, if_true,
      decide_eq_true_eq, List.length_drop] <;>
    split_ifs <;> simp <;> omega

/-- Every ack takes eight bytes. -/
theorem readAcks_ok_iff (n : Nat) (bs : List UInt8) :
    (∃ acks, readAcks n bs = .ok acks) ↔ 8 * n ≤ bs.length := by
  induction n generalizing bs with
  | zero => simp [readAcks]
  | succ n ih =>
    rw [readAcks]
    by_cases h8 : bs.length < 8
    · rw [if_pos h8]
      constructor
      · rintro ⟨acks, h⟩
        cases h
      · omega
    · rw [if_neg h8]
      have hrec := ih ((bs.drop 4).drop 4)
      simp only [List.length_drop] at hrec
      cases hr : readAcks n ((bs.drop 4).drop 4) with
      | ok acks =>
        rw [hr] at hrec
        have := hrec.mp ⟨acks, rfl⟩
        exact ⟨fun _ => by omega, fun _ => ⟨_, rfl⟩⟩
      | error e =>
        rw [hr] at hrec
        constructor
        · rintro ⟨acks, h⟩
          cases h
        · intro h
          obtain ⟨acks, h⟩ := hrec.mpr (by omega)
          cases h

/-- The acks that a binary ack message announces are behind its count, or their
size in `int32` arithmetic does not pass the check. A negative count stands for
as many rounds as its bit pattern says. -/
def AckCountOk (bs : List UInt8) : Prop :=
  let count := int32Field bs
  let need := signed 4294967296 (unsigned 4294967296 (count * 8))
  bs.length < 4 ∨ ¬ (0 ≤ need ∧ need ≤ (bs.length : Int) - 4) ∨
    8 * unsigned 4294967296 count ≤ bs.length - 4

/-- The count of the acks is believed. -/
theorem parseAckBin_ok_iff (bs : List UInt8) :
    (∃ acks, parseAckBin bs = .ok acks) ↔ AckCountOk bs := by
  rw [parseAckBin, AckCountOk]
  by_cases h4 : bs.length < 4
  · rw [if_pos h4]
    exact ⟨fun _ => Or.inl h4, fun _ => ⟨_, rfl⟩⟩
  · rw [if_neg h4]
    simp only [or_iff_right h4]
    split
    next hneed =>
      rw [readAcks_ok_iff, List.length_drop, or_iff_right (not_not.mpr hneed)]
    next hneed => exact ⟨fun _ => Or.inl hneed, fun _ => ⟨_, rfl⟩⟩

/-! ## Acknowledgements -/

/-- Every acknowledgement of a message that is still in the send buffer has a
frame index below 256. -/
def AcksSafe (acks : List MessageAck) (buffer : List SentMessage) : Prop :=
  ∀ ack ∈ acks, (∃ m ∈ buffer, m.sequence = ack.sequence) → ack.frameIndex < 256

/-- The frame index counts only where the message is still in the send buffer. -/
theorem handleIncomingAck_ok_iff (ack : MessageAck) (buffer : List SentMessage) :
    (∃ buffer', handleIncomingAck ack buffer = .ok buffer') ↔
      ((∃ m ∈ buffer, m.sequence = ack.sequence) → ack.frameIndex < 256) := by
  induction buffer with
  | nil => simp [handleIncomingAck]
  | cons m rest ih =>
    rw [handleIncomingAck]
    by_cases hseq : m.sequence = ack.sequence
    · rw [if_pos hseq]
      simp only [List.mem_cons, exists_eq_or_imp, hseq, true_or, forall_const]
      by_cases hneg : ack.frameIndex ≥ 0
      · rw [if_pos hneg, SentMessage.ackFrame]
        by_cases hidx : ack.frameIndex < 256
        · rw [if_pos ⟨hneg, hidx⟩]
          exact ⟨fun _ => hidx, fun _ => ⟨_, rfl⟩⟩
        · rw [if_neg (fun h : FrameIndexOk _ => hidx h.2)]
          exact ⟨fun ⟨_, h⟩ => (by cases h), fun h => absurd h hidx⟩
      · rw [if_neg hneg]
        exact ⟨fun _ => by omega, fun _ => ⟨_, rfl⟩⟩
    · rw [if_neg hseq]
      simp only [List.mem_cons, exists_eq_or_imp, hseq, false_or]
      rw [← ih]
      cases handleIncomingAck ack rest <;> simp

/-- Acknowledgements change no sequence numbers. -/
theorem handleIncomingAck_sequence {ack : MessageAck} {buffer buffer' : List SentMessage}
    (h : handleIncomingAck ack buffer = .ok buffer') :
    buffer'.map (·.sequence) = buffer.map (·.sequence) := by
  induction buffer generalizing buffer' with
  | nil =>
    cases h
    rfl
  | cons m rest ih =>
    rw [handleIncomingAck] at h
    split at h
    next =>
      split at h
      next =>
        rw [SentMessage.ackFrame] at h
        split at h
        next m' hm =>
          cases h
          split at hm
          next =>
            cases hm
            rfl
          next => cases hm
        next => cases h
      next =>
        cases h
        rfl
    next =>
      split at h
      next rest' hr =>
        cases h
        simp only [List.map_cons, ih hr]
      next => cases h

/-- Acks take no message out of the send buffer. -/
theorem handleIncomingAcks_sequence {acks : List MessageAck} {buffer buffer' : List SentMessage}
    (h : handleIncomingAcks acks buffer = .ok buffer') :
    buffer'.map (·.sequence) = buffer.map (·.sequence) := by
  induction acks generalizing buffer with
  | nil =>
    cases h
    rfl
  | cons ack acks ih =>
    rw [handleIncomingAcks] at h
    split at h
    next buffer₁ h₁ => exact (ih h).trans (handleIncomingAck_sequence h₁)
    next => cases h

/-- So every ack of the list meets the same messages. -/
theorem handleIncomingAcks_ok_iff (acks : List MessageAck) (buffer : List SentMessage) :
    (∃ buffer', handleIncomingAcks acks buffer = .ok buffer') ↔ AcksSafe acks buffer := by
  induction acks generalizing buffer with
  | nil => simp [handleIncomingAcks, AcksSafe]
  | cons ack acks ih =>
    rw [handleIncomingAcks, AcksSafe, List.forall_mem_cons, ← handleIncomingAck_ok_iff]
    cases ha : handleIncomingAck ack buffer with
    | error e => simp
    | ok buffer₁ =>
      have hmem : ∀ q, (∃ m ∈ buffer₁, m.sequence = q) ↔ ∃ m ∈ buffer, m.sequence = q := by
        intro q
        have hs := handleIncomingAck_sequence ha
        have := List.mem_map (f := (·.sequence)) (l := buffer₁) (b := q)
        rw [hs, List.mem_map] at this
        exact this.symm
      simp only [ih buffer₁, AcksSafe, hmem, Except.ok.injEq, exists_eq', true_and]

/-! ## Runs of a peer -/

/-- What happens to a peer: the application sends a message, the send thread
runs, a datagram comes in. -/
inductive PeerAction
  | sendMessage (m : Message) (packetSize : PacketSize) (binary : Bool)
  | doSend (due : List Int) (binary : Bool)
  | receive (d : Datagram)

/-- What a step makes of the state. Sending leaves it alone, so it does not matter here whether
the packets fit the buffers of the sender. -/
def peerStep (peer : Peer) : PeerAction → Except Fault Peer
  | .sendMessage m packetSize binary => (sendMessageFrames peer m packetSize binary).map (·.1)
  | .doSend due _ => (doSendFrames peer due).map (·.1)
  | .receive d => handlePacket peer d

/-- The condition on a datagram that reaches the peer: a binary message is not
cut off in its type field, a binary ack message has the acks it announces, and
the frame of a message fits the message it belongs to. -/
structure DatagramSafe (peer : Peer) (d : Datagram) : Prop where
  type : ∀ data, d = .bin data → binmsgCmd data = kAooBinMsgCmdMessage →
    TypeFieldOk (data.drop (binmsgHeadersize data))
  count : ∀ data, d = .bin data → binmsgCmd data = kAooBinMsgCmdAck →
    AckCountOk (data.drop (binmsgHeadersize data))
  frame : ∀ p flags, messageOf d = some (p, flags) → MessageSafe peer p flags

/-- The condition on one step: outgoing reliable messages have at most 256
frames, the acks that wait to be handled have frame indices below 256, incoming
datagrams are `DatagramSafe`. -/
def StepSafe (peer : Peer) : PeerAction → Prop
  | .sendMessage m packetSize binary =>
    m.reliable = true → numFrames m.data.data.length (maxsize packetSize binary) ≤ 256
  | .doSend _ _ => AcksSafe peer.receivedAcks peer.sendBuffer
  | .receive d => peer.addressed d = true → DatagramSafe peer d

/-- A binary datagram is safe or faults, whatever its bytes are. -/
theorem handleBinMessage_ok_iff {peer : Peer} (h : PeerInv peer) (data : List UInt8) :
    (∃ peer', handleBinMessage peer data (binmsgHeadersize data) = .ok peer') ↔
      DatagramSafe peer (.bin data) := by
  rw [handleBinMessage]
  by_cases hmsg : binmsgCmd data = kAooBinMsgCmdMessage
  · have hack : binmsgCmd data ≠ kAooBinMsgCmdAck := by
      rw [hmsg]
      decide
    have hparse : messageOf (.bin data) =
        (parseMessageBin (data.drop (binmsgHeadersize data))).toOption.join := by
      rw [messageOf, if_pos hmsg]
    have hiff : DatagramSafe peer (.bin data) ↔
        TypeFieldOk (data.drop (binmsgHeadersize data)) ∧
          ∀ p flags, messageOf (.bin data) = some (p, flags) → MessageSafe peer p flags := by
      refine ⟨fun hs => ⟨hs.type data rfl hmsg, hs.frame⟩, fun hs => ⟨?_, ?_, hs.2⟩⟩
      · rintro _ ⟨⟩ -
        exact hs.1
      · rintro _ ⟨⟩ hc
        exact absurd hc hack
    rw [if_pos hmsg, hiff, hparse, ← parseMessageBin_ok_iff]
    cases parseMessageBin (data.drop (binmsgHeadersize data)) with
    | error e => simp
    | ok r =>
      cases r with
      | none => simp [Except.toOption]
      | some r =>
        obtain ⟨p, flags⟩ := r
        have hp : PeerInv { peer with binaryAck := true } := ⟨h.receive, h.current⟩
        simp only [doHandleClientMessage_ok_iff hp, Except.ok.injEq, exists_eq', true_and,
          Except.toOption, Option.join_some, Option.some.injEq, Prod.mk.injEq]
        exact ⟨fun hs p' f' h => h.1 ▸ h.2 ▸ hs, fun hs => hs p flags ⟨rfl, rfl⟩⟩
  · have hparse : messageOf (.bin data) = none := by
      rw [messageOf, if_neg hmsg]
    have hiff : DatagramSafe peer (.bin data) ↔
        (binmsgCmd data = kAooBinMsgCmdAck → AckCountOk (data.drop (binmsgHeadersize data))) := by
      refine ⟨fun hs => hs.count data rfl, fun hs => ⟨?_, ?_, ?_⟩⟩
      · rintro _ ⟨⟩ hc
        exact absurd hc hmsg
      · rintro _ ⟨⟩ hc
        exact hs hc
      · intro p flags hp
        rw [hparse] at hp
        cases hp
    rw [if_neg hmsg, hiff]
    by_cases hack : binmsgCmd data = kAooBinMsgCmdAck
    · rw [if_pos hack, forall_prop_of_true hack, ← parseAckBin_ok_iff]
      cases parseAckBin (data.drop (binmsgHeadersize data)) <;> simp
    · rw [if_neg hack]
      exact ⟨fun _ hc => absurd hc hack, fun _ => ⟨_, rfl⟩⟩

/-- So is an OSC message; oscpack throws where arguments are missing. -/
theorem handleOscMessage_ok_iff {peer : Peer} (h : PeerInv peer) (msg : OscMessage) :
    (∃ peer', handleOscMessage peer msg.address (msg.args.drop 2) = .ok peer') ↔
      DatagramSafe peer (.osc msg) := by
  have hiff : DatagramSafe peer (.osc msg) ↔
      ∀ p flags, messageOf (.osc msg) = some (p, flags) → MessageSafe peer p flags :=
    ⟨fun hs => hs.frame, fun hs => ⟨by rintro _ ⟨⟩, by rintro _ ⟨⟩, hs⟩⟩
  rw [hiff]
  obtain ⟨address, args⟩ := msg
  cases address with
  | peerMessage =>
    simp only [handleOscMessage, messageOf, if_true]
    cases parseMessageOsc (args.drop 2) with
    | none => simp
    | some r =>
      obtain ⟨p, flags⟩ := r
      have hinv : PeerInv { peer with binaryAck := false } := ⟨h.receive, h.current⟩
      simp only [doHandleClientMessage_ok_iff hinv, Option.some.injEq, Prod.mk.injEq]
      exact ⟨fun hs p' f' h => h.1 ▸ h.2 ▸ hs, fun hs => hs p flags ⟨rfl, rfl⟩⟩
  | _ => simp [handleOscMessage, messageOf]

/-- A packet for another group or user is not looked at. -/
theorem handlePacket_ok_iff {peer : Peer} (h : PeerInv peer) (d : Datagram) :
    (∃ peer', handlePacket peer d = .ok peer') ↔
      (peer.addressed d = true → DatagramSafe peer d) := by
  unfold handlePacket
  by_cases haddr : peer.addressed d
  · rw [if_pos haddr, forall_prop_of_true haddr]
    cases d with
    | bin data => exact handleBinMessage_ok_iff h data
    | osc msg => exact handleOscMessage_ok_iff h msg
  · rw [if_neg haddr]
    exact ⟨fun _ hc => absurd hc haddr, fun _ => ⟨_, rfl⟩⟩

/-- Every packet leaves well-formed buffers behind. -/
theorem handlePacket_inv {peer peer' : Peer} {d : Datagram} (h : PeerInv peer)
    (hs : handlePacket peer d = .ok peer') : PeerInv peer' := by
  rcases handlePacket_cases hs with ⟨-, rfl⟩ | ⟨-, p, flags, -, hd⟩ | ⟨-, -, rfl⟩
  · exact h
  · -- the flag for binary acks is not part of the invariant
    have hb : PeerInv { peer with binaryAck := binaryOf d } := ⟨h.receive, h.current⟩
    exact doHandleClientMessage_inv hb hd
  · exact ⟨h.receive, h.current⟩

/-- A step of the peer does not fault if and only if it is safe. -/
theorem peerStep_ok_iff {peer : Peer} (h : PeerInv peer) (a : PeerAction) :
    (∃ peer', peerStep peer a = .ok peer') ↔ StepSafe peer a := by
  cases a with
  | sendMessage m packetSize binary =>
    rw [peerStep, StepSafe, sendMessageFrames]
    by_cases hrel : m.reliable
    · simp only [if_pos hrel, forall_prop_of_true hrel]
      by_cases hn : numFrames m.data.data.length (maxsize packetSize binary) ≤ 256
      · simp [SentMessage.new_eq _ _ _ _ hn, hn, Except.map]
      · simp [SentMessage.new_of_gt _ _ _ _ (Nat.lt_of_not_le hn), hn, Except.map]
    · simp [hrel, Except.map]
  | doSend due binary =>
    simp only [peerStep, StepSafe, doSendFrames, ← handleIncomingAcks_ok_iff]
    cases handleIncomingAcks peer.receivedAcks peer.sendBuffer <;> simp [Except.map]
  | receive d => exact handlePacket_ok_iff h d

/-- Every step leaves well-formed buffers behind. -/
theorem peerStep_inv {peer peer' : Peer} {a : PeerAction} (h : PeerInv peer)
    (hs : peerStep peer a = .ok peer') : PeerInv peer' := by
  cases a with
  | sendMessage m packetSize binary =>
    rw [peerStep, sendMessageFrames] at hs
    split at hs
    next =>
      simp only at hs
      split at hs
      next => cases hs
      next =>
        cases hs
        exact ⟨h.receive, h.current⟩
    next =>
      cases hs
      exact ⟨h.receive, h.current⟩
  | doSend due binary =>
    rw [peerStep, doSendFrames] at hs
    simp only at hs
    split at hs
    next => cases hs
    next =>
      cases hs
      exact ⟨h.receive, h.current⟩
  | receive d => exact handlePacket_inv h hs

/-- **A peer survives exactly the safe traffic**: a run in which the application
sends any messages, the send thread runs at any time and arbitrary datagrams
arrive is free of out-of-bounds accesses if and only if each of its steps is
`StepSafe` in the state before it. -/
theorem peer_run_ok_iff (groupId userId localId : Int) (as : List PeerAction) :
    (∃ peer, run peerStep (Peer.new groupId userId localId) as = .ok peer) ↔
      RunAll peerStep StepSafe (Peer.new groupId userId localId) as :=
  run_ok_iff (I := PeerInv) (fun _ a h => peerStep_ok_iff h a)
    (fun _ _ _ h hs => peerStep_inv h hs) ⟨receiveInv_empty, placeholder_sized _⟩

/-- Four datagrams that break a fresh peer: a message that ends before its type
field, a frame longer than its message, frame index 300, and an ack count of
`2^29` without acks. -/
theorem peer_datagram_faults :
    run peerStep (Peer.new 0 0 0) [.receive (.bin [0x84, 0, 0, 0, 0, 0, 0, 0, 0, 0, 0, 0])] =
      .error .read ∧
    run peerStep (Peer.new 0 0 0) [.receive (.bin [0x84, 0, 0, 0, 0, 0, 0, 0, 0, 3, 0, 4,
      0, 0, 0, 2, 0, 0, 0, 1, 0, 0, 0, 0, 0, 0, 0, 0, 1, 2, 3, 4])] = .error .copy ∧
    run peerStep (Peer.new 0 0 0) [.receive (.bin [0x84, 0, 0, 0, 0, 0, 0, 0, 0, 3, 0, 0,
      0, 0, 0, 0, 0, 0, 0, 1, 0, 0, 1, 44, 0, 0, 0, 0])] = .error .frame ∧
    run peerStep (Peer.new 0 0 0) [.receive (.bin [0x84, 1, 0, 0, 0x20, 0, 0, 0])] =
      .error .read := by
  refine ⟨rfl, rfl, rfl, rfl⟩

end Aoo.Net
