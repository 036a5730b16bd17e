import Aoo.Net.System

/-!
# Reliable messages arrive in order

The receiving half of the invariant: a frame of a logged message never makes
the receiver fault (`messageSafe_of_frame`) and keeps it in order
(`receiver_of_frame`). With the sending half this gives `step_inv`, and over
runs `delivered_prefix_sent`: at every moment the reliable messages that a peer
has handed to its event handler are the first ones that the other side has
sent.

The network cannot break this, but the sender can: a frame that is longer than the
buffer of `send_packet_bin` is copied behind its end, and one that is longer than
that of `send_packet_osc` throws (`long_message_overruns`). `Action.Fits` is the
condition on the sizes.
-/

namespace Aoo.Net

open Lib

/-! ## Steps of the receiving half -/

section Receive

variable {m : Message} {ms q i : Nat} {sent : Bool → Log} {p : MessagePacket} {flags : Nat}

/-- The fields of a frame at the receiver. -/
theorem FrameFrom.fields (h : FrameFrom sent p flags m ms q i) :
    p.type = m.data.type ∧ p.tt = m.tt ∧ p.sequence = q ∧ p.totalSize = m.data.data.length ∧
      p.numFrames = wireFrames m.data.data.length ms ∧ p.frameIndex = i := by
  obtain ⟨-, -, o, l, p₀, rfl, hf⟩ := h
  obtain ⟨htype, htt, hseq, htotal, -, -⟩ := received_eq p₀
  exact ⟨htype.trans hf.type, htt.trans hf.tt, hseq.trans hf.seq, htotal.trans hf.total,
    hf.received_num, hf.received_index⟩

theorem FrameFrom.frameInside (h : FrameFrom sent p flags m ms q i)
    (hn : numFrames m.data.data.length ms ≤ 256) :
    FrameInside m.data.data.length (wireFrames m.data.data.length ms) i p.data.length := by
  obtain ⟨-, -, o, l, p₀, rfl, hf⟩ := h
  rw [(received_eq p₀).2.2.2.2.1, hf.data_length]
  exact hf.frameInside hn

theorem FrameFrom.ackOk (h : FrameFrom sent p flags m ms q i) (hlog : LogOk sent) :
    AckOk ⟨p.sequence, p.frameIndex⟩ := by
  obtain ⟨-, -, hseq, -, -, hidx⟩ := h.fields
  have hn := (hlog.entry _ m ms (List.mem_of_getElem? h.1)).2.2.2
  have hq := hlog.seq_lt h.1
  refine ⟨?_, ?_⟩
  · rw [hidx]
    exact (h.frameInside hn).1
  · simp only [hseq]
    omega

theorem initialised_header (h : FrameFrom sent p flags m ms q i) (r : ReceivedMessage)
    (data : List (Option UInt8)) :
    HeaderOf m ms (r.initialised p.type p.tt p.numFrames p.totalSize data) := by
  obtain ⟨htype, htt, -, htotal, hnum, -⟩ := h.fields
  exact ⟨htt, htype, htotal, hnum⟩

theorem addFrame_header {r r' : ReceivedMessage} {index : Int} {data : List UInt8}
    (hr : HeaderOf m ms r) (h : r.addFrame index data = .ok r') :
    HeaderOf m ms r' ∧ (r.data ≠ none → r'.data ≠ none) := by
  have hf := ReceivedMessage.addFrame_ok_iff.mp ⟨_, h⟩
  rw [ReceivedMessage.addFrame_eq hf] at h
  cases h
  refine ⟨⟨hr.tt, hr.type, hr.size, hr.num⟩, fun hd => ?_⟩
  simpa [ReceivedMessage.withFrame, copyTo] using hd

theorem addMissingFrame_header {r r' : ReceivedMessage} (hr : HeaderOf m ms r)
    (h : addMissingFrame r p = .ok r') :
    HeaderOf m ms r' ∧ (r.data ≠ none → r'.data ≠ none) := by
  rw [addMissingFrame] at h
  split at h
  next => cases h
  next =>
    cases h
    exact ⟨hr, id⟩
  next => exact addFrame_header hr h

/-- A frame turns the message with its sequence number into one with the header
of the message it was cut from. -/
theorem addToMessage_header {b : MessageReceiveBuffer} {r : ReceivedMessage} {ok : Bool}
    (hf : FrameFrom sent p flags m ms q i) (hn : numFrames m.data.data.length ms ≤ 256)
    (hstored : (b.msgAt p.sequence).data ≠ none → HeaderOf m ms (b.msgAt p.sequence))
    (h : addToMessage b p = .ok (r, ok)) : ok = true ∧ r.data ≠ none ∧ HeaderOf m ms r := by
  obtain ⟨-, -, -, htotal, hnum, -⟩ := hf.fields
  have hsize : 0 ≤ p.totalSize := by omega
  have hnum256 : p.numFrames ≤ 256 := by
    rw [hnum, wireFrames]
    omega
  rw [addToMessage] at h
  split at h
  next =>
    rw [addNewMessage, ReceivedMessage.init_eq _ _ _ hsize hnum256] at h
    simp only at h
    split at h
    next r₁ ha =>
      cases h
      obtain ⟨hh, hd⟩ := addFrame_header (initialised_header hf _ _) ha
      exact ⟨rfl, hd (by simp [ReceivedMessage.initialised]), hh⟩
    next => cases h
  next =>
    rw [addToExisting] at h
    by_cases hp : (b.msgAt p.sequence).placeholder
    · rw [if_pos hp, ReceivedMessage.init_eq _ _ _ hsize hnum256] at h
      simp only at h
      split at h
      next r₁ ha =>
        cases h
        obtain ⟨hh, hd⟩ := addMissingFrame_header (initialised_header hf _ _) ha
        exact ⟨rfl, hd (by simp [ReceivedMessage.initialised]), hh⟩
      next => cases h
    · rw [if_neg hp] at h
      have hsome : (b.msgAt p.sequence).data ≠ none := fun hd =>
        hp (by rw [ReceivedMessage.placeholder, hd]; rfl)
      simp only at h
      split at h
      next r₁ ha =>
        cases h
        obtain ⟨hh, hd⟩ := addMissingFrame_header (hstored hsome) ha
        exact ⟨rfl, hd hsome, hh⟩
      next => cases h

end Receive

/-- The logged message that a stored one comes from is the one its frames come
from. -/
theorem ReceiverInv.stored_header {peer : Peer} {sent : Bool → Log} {p : MessagePacket}
    {flags : Nat} {m : Message} {ms q i : Nat} (h : ReceiverInv peer sent)
    (hf : FrameFrom sent p flags m ms q i) (hrel : m.reliable = true)
    (hpop : peer.receiveBuffer.lastPopped < p.sequence)
    (hd : (peer.receiveBuffer.msgAt p.sequence).data ≠ none) :
    HeaderOf m ms (peer.receiveBuffer.msgAt p.sequence) := by
  obtain ⟨n, m', ms', hn, hlog, hh⟩ := h.stored _ hpop hd
  have hnq : n = q := by
    have := hf.fields.2.2.1
    omega
  have hlog' := hf.1
  rw [hrel, ← hnq, hlog] at hlog'
  cases hlog'
  exact hh

/-- A frame of a logged message cannot make the receiver fault. -/
theorem messageSafe_of_frame {peer : Peer} {sent : Bool → Log} {p : MessagePacket} {flags : Nat}
    {m : Message} {ms q i : Nat} (h : ReceiverInv peer sent) (hlog : LogOk sent)
    (hf : FrameFrom sent p flags m ms q i) : MessageSafe peer p flags := by
  obtain ⟨-, -, -, hn⟩ := hlog.entry _ m ms (List.mem_of_getElem? hf.1)
  obtain ⟨-, -, hseq, htotal, hnum, hidx⟩ := hf.fields
  have hin := hf.frameInside hn
  have hnum256 : p.numFrames ≤ 256 := by
    rw [hnum, wireFrames]
    omega
  have hnew : NewSafe p := by
    refine Or.inr ⟨hnum256, ?_⟩
    rw [htotal, hnum, hidx]
    exact hin
  rw [MessageSafe, hf.2.1]
  by_cases hrel : m.reliable
  · rw [if_pos hrel]
    by_cases hpop : p.sequence ≤ peer.receiveBuffer.lastPopped
    · exact Or.inl hpop
    refine Or.inr ?_
    rw [ReliableSafe]
    split_ifs with h1 h2
    · exact hnew
    · refine Or.inr ⟨hnum256, by rw [hidx]; exact hin.1, fun _ => ?_⟩
      rw [htotal, hnum, hidx]
      exact hin
    · have hh := h.stored_header hf hrel (by omega)
        (fun hd => h2 (by rw [ReceivedMessage.placeholder, hd]; rfl))
      refine ⟨by rw [hidx]; exact hin.1, fun _ => ?_⟩
      rw [hh.size, hh.num, hidx]
      exact hin
  · rw [if_neg hrel, UnreliableSafe]
    refine Or.inr ?_
    have hrel : m.reliable = false := by simpa using hrel
    split_ifs with h1 h2
    · exact hnew
    · -- a message without buffer has sequence number -1, which no frame has
      rcases h.current with ⟨hc, -⟩ | ⟨n, m', ms', hs, hq, hh, hd⟩
      · omega
      · exact absurd (Option.isNone_iff_eq_none.mp h2) hd
    · rcases h.current with ⟨hc, -⟩ | ⟨n, m', ms', hs, hq, hh, hd⟩
      · omega
      · have hnq : n = q := by omega
        have hlog' := hf.1
        rw [hrel, ← hnq, hq] at hlog'
        cases hlog'
        rw [hh.size, hh.num, hidx]
        exact hin

/-- What `do_handle_client_message` does with a new frame of a reliable message
when `init` does not throw. -/
theorem doHandleClientMessage_reliable {peer peer' : Peer} {p : MessagePacket} {flags : Nat}
    {r : ReceivedMessage} (hinv : PeerInv peer) (hbit : hasBit flags kAooMessageReliable = true)
    (hpop : peer.receiveBuffer.lastPopped < p.sequence)
    (hr : addToMessage peer.receiveBuffer p = .ok (r, true))
    (h : doHandleClientMessage peer p flags = .ok peer') :
    ∃ (b₁ b₂ : MessageReceiveBuffer) (k : Nat), Updated peer.receiveBuffer b₁ p.sequence r ∧
      Popped b₁ b₂ k ∧ peer' = { peer with
        receiveBuffer := b₂
        events := peer.events ++ (List.range k).map fun i : Nat =>
          let msg := b₁.msgAt (peer.receiveBuffer.lastPopped + 1 + i)
          peer.event msg.tt msg.type (msg.data.getD []) (some msg.sequence)
        sendAcks := peer.sendAcks ++ [⟨p.sequence, p.frameIndex⟩] } := by
  obtain ⟨b₁, hb₁, hu⟩ := (storeFrame_updated hinv.receive hpop).1 r true hr
  obtain ⟨k, b₂, hpc, hp⟩ := popComplete_msgAt hu.inv
  refine ⟨b₁, b₂, k, hu, hp, ?_⟩
  rw [doHandleClientMessage, if_pos hbit, if_neg (by omega), hb₁] at h
  simp only [hpc, List.map_map] at h
  cases h
  simp only [hu.popped, Function.comp_def]

/-- What `do_handle_client_message` does with a frame of an unreliable message of
several frames when `init` does not throw. -/
theorem doHandleClientMessage_unreliable {peer peer' : Peer} {p : MessagePacket} {flags : Nat}
    (hbit : hasBit flags kAooMessageReliable = false)
    (h : doHandleClientMessage peer p flags = .ok peer') :
    ∃ es : List PeerMessageEvent, (∀ e ∈ es, e.sequence = none) ∧
      peer' = { peer with currentMsg := peer'.currentMsg, events := peer.events ++ es } := by
  rw [doHandleClientMessage, if_neg (by simp [hbit])] at h
  split at h
  next =>
    simp only at h
    split at h
    next => cases h
    next =>
      cases h
      exact ⟨[], by simp, by simp⟩
    next =>
      split at h
      next => cases h
      next r hr =>
        cases h
        refine ⟨_, ?_, rfl⟩
        intro e he
        split at he
        next =>
          rw [List.mem_singleton.mp he]
          rfl
        next => cases he
  next =>
    cases h
    refine ⟨_, ?_, rfl⟩
    intro e he
    rw [List.mem_singleton.mp he]
    rfl

theorem delivered_append {p p' : Peer} {es : List PeerMessageEvent}
    (h : p'.events = p.events ++ es) : delivered p' =
      delivered p ++ es.filterMap fun e => e.sequence.map fun q => (q, e.type, e.tt) := by
  rw [delivered, h, List.filterMap_append]
  rfl

/-- The events for messages that are handed over, one after the other. -/
theorem delivered_handOver (p : Peer) (f : Nat → ReceivedMessage) (k : Nat) :
    ((List.range k).map fun i => p.event (f i).tt (f i).type ((f i).data.getD [])
        (some (f i).sequence)).filterMap (fun e => e.sequence.map fun q => (q, e.type, e.tt)) =
      (List.range k).map fun i => ((f i).sequence, (f i).type, (f i).tt) := by
  rw [List.filterMap_map, ← List.filterMap_eq_map]
  rfl

/-- The message in progress after a frame of an unreliable message. -/
theorem currentMsg_of_frame {peer peer' : Peer} {sent : Bool → Log} {p : MessagePacket}
    {flags : Nat} {m : Message} {ms q i : Nat} (h : ReceiverInv peer sent) (hlog : LogOk sent)
    (hf : FrameFrom sent p flags m ms q i) (hrel : m.reliable = false)
    (hd : doHandleClientMessage peer p flags = .ok peer') :
    (peer'.currentMsg.sequence = -1 ∧ peer'.currentMsg.data = none) ∨
      ∃ (n : Nat) (m : Message) (ms : Nat), peer'.currentMsg.sequence = n ∧
        (sent false)[n]? = some (m, ms) ∧ HeaderOf m ms peer'.currentMsg ∧
          peer'.currentMsg.data ≠ none := by
  obtain ⟨-, -, -, hn⟩ := hlog.entry _ m ms (List.mem_of_getElem? hf.1)
  obtain ⟨-, -, hseq, htotal, hnum, -⟩ := hf.fields
  have hq := hf.1
  rw [hrel] at hq
  rw [doHandleClientMessage, if_neg (by simp [hf.2.1, hrel])] at hd
  split at hd
  next =>
    by_cases hnew : peer.currentMsg.sequence ≠ p.sequence
    · have hnum256 : p.numFrames ≤ 256 := by
        rw [hnum, wireFrames]
        omega
      rw [if_pos hnew, ReceivedMessage.init_eq _ _ _ (by omega) hnum256] at hd
      simp only at hd
      split at hd
      next => cases hd
      next r ha =>
        cases hd
        obtain ⟨hh, hdata⟩ := addFrame_header (initialised_header hf _ _) ha
        obtain ⟨-, hs⟩ := addFrame_sized (initialised_sized _ _ _ _ (by omega)) ha
        exact Or.inr ⟨q, m, ms, hs.trans hseq, hq, hh,
          hdata (by simp [ReceivedMessage.initialised])⟩
    · rw [if_neg hnew] at hd
      simp only at hd
      split at hd
      next => cases hd
      next r ha =>
        cases hd
        rcases h.current with ⟨hc, -⟩ | ⟨n, m', ms', hs, hq', hh, hdata⟩
        · omega
        · obtain ⟨-, hs'⟩ := addFrame_sized h.inv.current ha
          obtain ⟨hh', hdata'⟩ := addFrame_header hh ha
          exact Or.inr ⟨n, m', ms', hs'.trans hs, hq', hh', hdata' hdata⟩
  next =>
    cases hd
    exact h.current

/-- **One frame.** Receiving a frame of a logged message keeps the receiving
half in order. -/
theorem receiver_of_frame {peer peer' : Peer} {sent : Bool → Log} {p : MessagePacket}
    {flags : Nat} {m : Message} {ms q i : Nat} (h : ReceiverInv peer sent) (hlog : LogOk sent)
    (hf : FrameFrom sent p flags m ms q i)
    (hd : doHandleClientMessage peer p flags = .ok peer') : ReceiverInv peer' sent := by
  obtain ⟨-, -, -, hn⟩ := hlog.entry _ m ms (List.mem_of_getElem? hf.1)
  have hack := hf.ackOk hlog
  have hinv := doHandleClientMessage_inv h.inv hd
  have hacks : ∀ a ∈ peer.sendAcks ++ [⟨p.sequence, p.frameIndex⟩], AckOk a := by
    intro a ha
    rcases List.mem_append.mp ha with ha | ha
    · exact h.acks a ha
    · rw [List.mem_singleton.mp ha]
      exact hack
  by_cases hrel : m.reliable
  · have hbit : hasBit flags kAooMessageReliable = true := hf.2.1.trans hrel
    by_cases hpop : p.sequence ≤ peer.receiveBuffer.lastPopped
    · -- outdated: only the acknowledgement is new
      rw [doHandleClientMessage, if_pos hbit, if_pos hpop] at hd
      cases hd
      exact ⟨hinv, h.stored, h.current, hacks, h.count, h.order⟩
    · have hsafe := messageSafe_of_frame h hlog hf
      rw [MessageSafe, if_pos hbit, or_iff_right hpop,
        ← addToMessage_ok_iff h.inv.receive (by omega)] at hsafe
      obtain ⟨⟨r, ok⟩, hr⟩ := hsafe
      obtain ⟨rfl, hdata, hh⟩ :=
        addToMessage_header hf hn (h.stored_header hf hrel (by omega)) hr
      obtain ⟨b₁, b₂, k, hu, hp, heq⟩ :=
        doHandleClientMessage_reliable h.inv hbit (by omega) hr hd
      have hb : peer'.receiveBuffer = b₂ := by rw [heq]
      have hc : peer'.currentMsg = peer.currentMsg := by rw [heq]
      have ha : peer'.sendAcks = peer.sendAcks ++ [⟨p.sequence, p.frameIndex⟩] := by rw [heq]
      have he : peer'.events = peer.events ++ _ := congrArg Peer.events heq
      have hdel := (delivered_append he).trans (congrArg (delivered peer ++ ·)
        (delivered_handOver peer
          (fun i => b₁.msgAt (peer.receiveBuffer.lastPopped + 1 + i)) k))
      -- after the frame is stored, every message with a buffer has a logged header
      have hlogq : (sent true)[q]? = some (m, ms) := by
        rw [← hrel]
        exact hf.1
      have hstored : ∀ s : Int, peer.receiveBuffer.lastPopped < s → (b₁.msgAt s).data ≠ none →
          ∃ (n : Nat) (m : Message) (ms : Nat), s = n ∧ (sent true)[n]? = some (m, ms) ∧
            HeaderOf m ms (b₁.msgAt s) := by
        intro s hs hd'
        rw [hu.at_eq s hs] at hd' ⊢
        split at hd'
        next he =>
          rw [if_pos he]
          exact ⟨q, m, ms, he.trans hf.fields.2.2.1, hlogq, hh⟩
        next hne =>
          rw [if_neg hne]
          exact h.stored s hs hd'
      have hpopped : b₂.lastPopped = peer.receiveBuffer.lastPopped + k := by
        rw [hp.popped, hu.popped]
      have hlow := h.inv.receive.popped
      refine ⟨hinv, fun s hs hd' => ?_, by rw [hc]; exact h.current, by rw [ha]; exact hacks,
        ?_, ?_⟩
      · rw [hb] at hs hd' ⊢
        rw [hp.at_eq s hs] at hd' ⊢
        exact hstored s (by omega) hd'
      · have hcount := h.count
        rw [hdel, hb, hpopped, List.length_append, List.length_map, List.length_range]
        push_cast
        omega
      · intro j t ht
        rw [hdel] at ht
        have hcount := h.count
        by_cases hj : j < (delivered peer).length
        · rw [List.getElem?_append_left hj] at ht
          exact h.order j t ht
        · -- one of the messages that were just handed over
          rw [List.getElem?_append_right (by omega)] at ht
          obtain ⟨hlt, ht⟩ := List.getElem?_eq_some_iff.mp ht
          rw [List.length_map, List.length_range] at hlt
          rw [List.getElem_map, List.getElem_range] at ht
          have hs : peer.receiveBuffer.lastPopped + 1 +
              ((j - (delivered peer).length : Nat) : Int) = j := by omega
          rw [hs] at ht
          have hcomp := hp.complete _ hlt
          rw [hu.popped, hs] at hcomp
          have hsome : (b₁.msgAt j).data ≠ none := by
            intro hnone
            rw [ReceivedMessage.complete, hnone] at hcomp
            cases hcomp
          obtain ⟨n, m', ms', hnj, hlog', hh'⟩ := hstored j (by omega) hsome
          have hjn : j = n := by omega
          refine ⟨m', ms', by rw [hjn]; exact hlog', ?_⟩
          rw [← ht, hh'.type, hh'.tt, msgAt_sequence hu.inv (by rw [hu.popped]; omega)]
  · have hrel : m.reliable = false := by simpa using hrel
    obtain ⟨es, hes, heq⟩ := doHandleClientMessage_unreliable (hf.2.1.trans hrel) hd
    have hcur := currentMsg_of_frame h hlog hf hrel hd
    have hdel : delivered peer' = delivered peer := by
      have hnone : (es.filterMap fun e => e.sequence.map fun q => (q, e.type, e.tt)) = [] := by
        rw [List.filterMap_eq_nil_iff]
        intro e he
        rw [hes e he]
        rfl
      have he : peer'.events = peer.events ++ es := congrArg Peer.events heq
      rw [delivered_append he, hnone, List.append_nil]
    have hb : peer'.receiveBuffer = peer.receiveBuffer := by rw [heq]
    have ha : peer'.sendAcks = peer.sendAcks := by rw [heq]
    refine ⟨hinv, ?_, hcur, ?_, ?_, ?_⟩
    · rw [hb]
      exact h.stored
    · rw [ha]
      exact h.acks
    · rw [hdel, hb]
      exact h.count
    · rw [hdel]
      exact h.order

/-! ## Steps of the system -/

/-- Handling a message touches nothing of the sending half. -/
theorem doHandleClientMessage_sender {peer peer' : Peer} {p : MessagePacket} {flags : Nat}
    (h : doHandleClientMessage peer p flags = .ok peer') :
    peer'.nextSequenceReliable = peer.nextSequenceReliable ∧
      peer'.nextSequenceUnreliable = peer.nextSequenceUnreliable ∧
      peer'.sendBuffer = peer.sendBuffer ∧ peer'.receivedAcks = peer.receivedAcks := by
  rw [doHandleClientMessage] at h
  split at h
  next =>
    split at h
    next =>
      cases h
      exact ⟨rfl, rfl, rfl, rfl⟩
    next =>
      split at h
      next => cases h
      next =>
        cases h
        exact ⟨rfl, rfl, rfl, rfl⟩
      next =>
        cases h
        exact ⟨rfl, rfl, rfl, rfl⟩
  next =>
    split at h
    next =>
      simp only at h
      split at h
      next => cases h
      next =>
        cases h
        exact ⟨rfl, rfl, rfl, rfl⟩
      next =>
        split at h
        next => cases h
        next =>
          cases h
          exact ⟨rfl, rfl, rfl, rfl⟩
    next =>
      cases h
      exact ⟨rfl, rfl, rfl, rfl⟩

/-- A good datagram never faults and keeps both halves of the peer in order. -/
theorem handlePacket_good {p : Peer} {sent sent₂ : Bool → Log} {d : Datagram}
    (hs : SenderInv p sent) (hr : ReceiverInv p sent₂) (hlog : LogOk sent₂) (hd : Good sent₂ d) :
    ∃ p', handlePacket p d = .ok p' ∧ SenderInv p' sent ∧ ReceiverInv p' sent₂ := by
  have hsafe : DatagramSafe p d := by
    refine ⟨hd.type, hd.count, fun packet flags hp => ?_⟩
    obtain ⟨m, ms, q, i, hf⟩ := hd.message packet flags hp
    exact messageSafe_of_frame hr hlog hf
  obtain ⟨p', hp'⟩ := (handlePacket_ok_iff hr.inv d).mpr (fun _ => hsafe)
  refine ⟨p', hp', ?_⟩
  rcases handlePacket_cases hp' with ⟨-, rfl⟩ | ⟨-, packet, flags, hmsg, hdo⟩ | ⟨-, -, rfl⟩
  · exact ⟨hs, hr⟩
  · obtain ⟨m, ms, q, i, hf⟩ := hd.message packet flags hmsg
    obtain ⟨h1, h2, h3, h4⟩ := doHandleClientMessage_sender hdo
    have hr' : ReceiverInv { p with binaryAck := binaryOf d } sent₂ :=
      hr.of_eq rfl rfl rfl (fun _ h => h)
    refine ⟨⟨h1.trans hs.reliable, h2.trans hs.unreliable, hs.log, ?_, ?_⟩,
      receiver_of_frame hr' hlog hf hdo⟩
    · rw [h3]
      exact hs.buffer
    · rw [h4]
      exact hs.acks
  · refine ⟨⟨hs.reliable, hs.unreliable, hs.log, hs.buffer, fun a ha => ?_⟩,
      hr.of_eq rfl rfl rfl (fun _ h => h)⟩
    rcases List.mem_append.mp ha with ha | ha
    · exact hs.acks a ha
    · exact hd.acks a ha

/-- The message that an action sends has at most 256 frames. -/
def Action.FramesOk : Action → Prop
  | .sendMessage _ m packetSize binary =>
    numFrames m.data.data.length (maxsize packetSize binary) ≤ 256
  | _ => True

/-- How many messages of a kind an action sends from a side. -/
def Action.sends (x r : Bool) : Action → Nat
  | .sendMessage y m _ _ => if y = x ∧ m.reliable = r then 1 else 0
  | _ => 0

/-- The packets that an action sends fit the buffers that they are written in: the
frames of a new message, and those that are sent again. -/
def Action.Fits (s : System) : Action → Prop
  | .sendMessage x m packetSize binary => (s.peer x).MessageFits m packetSize binary
  | .doSend x due binary => (s.peer x).ResentFits due binary
  | .deliver _ _ => True

/-- A step that sends something else faults. -/
theorem fits_of_step {s s' : System} {a : Action} (h : step s a = .ok s') : a.Fits s := by
  cases a with
  | sendMessage x m packetSize binary =>
    rw [step] at h
    split at h
    next => cases h
    next p ds hsend =>
      obtain ⟨packets, hframes, hds⟩ := sendMessage_ok.mp hsend
      obtain ⟨seq, rfl, hgroup, hlocal⟩ := sendMessageFrames_packets hframes
      exact (sendPackets_message_iff hgroup hlocal).mp ⟨ds, hds⟩
  | doSend x due binary =>
    rw [step] at h
    split at h
    next => cases h
    next p ds hsend =>
      obtain ⟨packets, ds', hframes, hds, -⟩ := doSend_ok.mp hsend
      exact (sendPackets_resent_iff hframes).mp ⟨ds', hds⟩
  | deliver x k => trivial

/-- **One step.** No step faults or leaves the invariant, as long as the
sequence numbers last and what it sends fits its buffers. -/
theorem step_inv {s : System} {a : Action} (h : Inv s) (hframes : a.FramesOk) (hfits : a.Fits s)
    (hcount : ∀ x r, (s.sent x r).length + a.sends x r ≤ 2147483648) :
    ∃ s', step s a = .ok s' ∧ Inv s' ∧
      ∀ x r, (s'.sent x r).length = (s.sent x r).length + a.sends x r := by
  cases a with
  | sendMessage x m packetSize binary =>
    have hc := hcount x m.reliable
    rw [Action.sends, if_pos ⟨rfl, rfl⟩] at hc
    obtain ⟨p', ds, hsend, hsender, hgood, hb, hcur, hev, hack⟩ :=
      sendMessage_inv (h x).1 hframes hc hfits
    rw [step, hsend]
    refine ⟨_, rfl, fun y => ?_, fun y r => ?_⟩
    · have hg := grows_addToLog (s.sent x) m (maxsize packetSize binary)
      by_cases hy : y = x
      · subst hy
        simp only [System.update, Function.update_self]
        rw [Function.update_of_ne (by cases y <;> decide)]
        refine ⟨hsender, fun d hd => ?_, (h y).2.2.of_eq hb hcur hev (fun a ha => hack ▸ ha)⟩
        rcases List.mem_append.mp hd with hd | hd
        · exact ((h y).2.1 d hd).mono hg
        · exact (hgood d hd).1
      · -- the other side has the same packets as before, of a log that has grown
        have hx : (!y) = x := by
          cases x <;> cases y <;> simp_all
        simp only [System.update, Function.update_of_ne hy, hx, Function.update_self]
        refine ⟨(h y).1, (h y).2.1, ?_⟩
        have hr := (h y).2.2
        rw [hx] at hr
        exact hr.mono hg
    · by_cases hy : y = x
      · subst hy
        simp only [Function.update_self, addToLog]
        by_cases hr : r = m.reliable
        · subst hr
          simp [Action.sends]
        · rw [Function.update_of_ne hr, Action.sends, if_neg (fun h => hr h.2.symm),
            Nat.add_zero]
      · simp only [Function.update_of_ne hy, Action.sends]
        rw [if_neg (fun h => hy h.1.symm), Nat.add_zero]
  | doSend x due binary =>
    obtain ⟨p', ds, hsend, hsender, hgood, hrecv, -, -⟩ :=
      doSend_inv (h x).1 (h x).2.2 hfits
    rw [step, hsend]
    refine ⟨_, rfl, fun y => ?_, fun y r => rfl⟩
    by_cases hy : y = x
    · subst hy
      simp only [System.update, Function.update_self]
      refine ⟨hsender, fun d hd => ?_, hrecv⟩
      rcases List.mem_append.mp hd with hd | hd
      · exact (h y).2.1 d hd
      · exact (hgood d hd).1
    · simp only [System.update, Function.update_of_ne hy]
      exact h y
  | deliver x k =>
    rw [step]
    cases hd : (s.net !x)[k]? with
    | none => exact ⟨s, rfl, h, fun _ _ => rfl⟩
    | some d =>
      obtain ⟨p', hp', hsender, hrecv⟩ := handlePacket_good (h x).1 (h x).2.2 (h !x).1.log
        ((h !x).2.1 d (List.mem_of_getElem? hd))
      simp only [hp']
      refine ⟨_, rfl, fun y => ?_, fun _ _ => rfl⟩
      by_cases hy : y = x
      · subst hy
        simp only [System.update, Function.update_self, List.append_nil]
        exact ⟨hsender, (h y).2.1, hrecv⟩
      · simp only [System.update, Function.update_of_ne hy]
        exact h y

theorem inv_start (groupId idA idB : Int) : Inv (System.start groupId idA idB) := by
  intro x
  have hlog : LogOk fun _ => [] := ⟨fun _ _ _ h => (by cases h), fun _ => by simp⟩
  have hnew : ∀ userId localId, SenderInv (Peer.new groupId userId localId) (fun _ => []) ∧
      ReceiverInv (Peer.new groupId userId localId) (fun _ => []) := by
    intro userId localId
    refine ⟨⟨rfl, rfl, hlog, fun _ h => (by cases h), fun _ h => (by cases h)⟩,
      ⟨receiveInv_empty, placeholder_sized _⟩, fun q _ hd => ?_, Or.inl ⟨rfl, rfl⟩,
      fun _ h => (by cases h), rfl, fun i t ht => ?_⟩
    · exact absurd rfl hd
    · simp [delivered, Peer.new] at ht
  refine ⟨?_, fun d hd => (by cases hd), ?_⟩
  · cases x <;> exact (hnew _ _).1
  · cases x <;> exact (hnew _ _).2

/-- What a run from a good state needs of the actions that are still to come. -/
structure Feasible (s : System) (as : List Action) : Prop where
  inv : Inv s
  frames : ∀ a ∈ as, a.FramesOk
  fits : RunAll step (fun s a => Action.Fits s a) s as
  count : ∀ x r, (s.sent x r).length + (as.map (Action.sends x r)).sum < 2147483648

theorem feasible_step {s : System} {a : Action} {as : List Action} (h : Feasible s (a :: as)) :
    ∃ s', step s a = .ok s' ∧ Feasible s' as := by
  have hcount : ∀ x r, (s.sent x r).length + a.sends x r + (as.map (Action.sends x r)).sum <
      2147483648 := by
    intro x r
    have := h.count x r
    rw [List.map_cons, List.sum_cons] at this
    omega
  obtain ⟨s', hs, hinv, hlen⟩ := step_inv h.inv (h.frames a (List.mem_cons_self ..)) h.fits.1
    (fun x r => by have := hcount x r; omega)
  refine ⟨s', hs, hinv, fun b hb => h.frames b (List.mem_cons_of_mem _ hb), h.fits.2 s' hs,
    fun x r => ?_⟩
  rw [hlen]
  exact hcount x r

theorem feasible_start (groupId idA idB : Int) {as : List Action} (hframes : ∀ a ∈ as, a.FramesOk)
    (hcount : ∀ x r, (as.map (Action.sends x r)).sum < 2147483648)
    (hfits : RunAll step (fun s a => Action.Fits s a) (System.start groupId idA idB) as) :
    Feasible (System.start groupId idA idB) as :=
  ⟨inv_start groupId idA idB, hframes, hfits, fun x r => by simpa [System.start] using hcount x r⟩

/-- Two messages that arrive in the wrong order, the second one twice. -/
def twoMessages : List Action :=
  [.sendMessage false ⟨51, { type := 1, data := [10] }, true, by decide⟩ (.control 150) true,
    .sendMessage false ⟨52, { type := 2, data := [20] }, true, by decide⟩ (.control 150) false,
    .deliver true 1, .deliver true 0, .deliver true 1]

/-- A long message with a time tag in a group with a large id. -/
def longMessage : List Action :=
  [.sendMessage false ⟨53, { type := 3, data := List.replicate 5000 0 }, true, by decide⟩
    (.control 4096) true]

end Aoo.Net
